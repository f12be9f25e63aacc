import Mathlib.Data.List.Infix
import TypedMirror.KeyPattern

/-!
# What a key pattern matches

A pattern is laid over a value item by item, and `accept` decides whether this is possible.

* `tells_lay` — no run has to be tried again once the items have been laid up to the next one;
* `accept_iff` — items are found to fit in some way just if they do;
* `matchesIgnoringCase_of_exactly` — what matches with its case matches without it;
* `matchesExactly_uncovered` — a pattern without wildcards;
* `matchesExactly_plain`, `matchesIgnoringCase_plain` — and without backslashes.
-/

namespace TypedMirror.KeyPattern

/-- The items can be laid over the value, one after the other and without a gap. -/
inductive Laid : List Item → Text → Prop
  | nil : Laid [] []
  | anyRun {is : List Item} {rest : Text} (run : Text) (h : Laid is rest) :
    Laid (.anyRun :: is) (run ++ rest)
  | anyOne {is : List Item} {rest : Text} (c : Char) (h : Laid is rest) :
    Laid (.anyOne :: is) (c :: rest)
  | exactly {is : List Item} {rest : Text} (c : Char) (h : Laid is rest) :
    Laid (.exactly c :: is) (c :: rest)

/-! ## Deciding -/

theorem laid_nil {is : List Item} : Laid is [] ↔ ∀ i ∈ is, i = .anyRun := by
  constructor
  · intro h
    generalize hvalue : ([] : Text) = value at h
    induction h with
    | nil => simp
    | anyRun run h ih =>
      obtain ⟨-, hrest⟩ := List.append_eq_nil_iff.1 hvalue.symm
      exact List.forall_mem_cons.2 ⟨rfl, ih hrest.symm⟩
    | anyOne c h ih => cases hvalue
    | exactly c h ih => cases hvalue
  · intro h
    induction is with
    | nil => exact .nil
    | cons i is ih =>
      obtain ⟨rfl, his⟩ := List.forall_mem_cons.1 h
      exact .anyRun [] (ih his)

/-- Behind a run the items are laid over some end of the value. -/
theorem laid_anyRun {is : List Item} {value : Text} :
    Laid (.anyRun :: is) value ↔ ∃ t, t <:+ value ∧ Laid is t := by
  constructor
  · rintro (_ | ⟨run, h⟩)
    exact ⟨_, List.suffix_append run _, h⟩
  · rintro ⟨t, ⟨run, rfl⟩, h⟩
    exact .anyRun run h

theorem laid_anyOne {is : List Item} {value : Text} :
    Laid (.anyOne :: is) value ↔ ∃ c r, value = c :: r ∧ Laid is r := by
  constructor
  · rintro (_ | _ | ⟨c, h⟩)
    exact ⟨c, _, rfl, h⟩
  · rintro ⟨c, r, rfl, h⟩
    exact .anyOne c h

theorem laid_exactly_cons {is : List Item} {c : Char} {value : Text} :
    Laid (.exactly c :: is) value ↔ ∃ r, value = c :: r ∧ Laid is r := by
  constructor
  · rintro (_ | _ | _ | ⟨_, h⟩)
    exact ⟨_, rfl, h⟩
  · rintro ⟨r, rfl, h⟩
    exact .exactly c h

theorem suffix_of_cons {c d : Char} {a b : Text} (h : d :: b <:+ c :: a) : b <:+ a := by
  rcases List.suffix_cons_iff.1 h with h | h
  · rw [(List.cons.inj h).2]
  · exact (List.suffix_cons d b).trans h

/-- What an answer says of items and a value.  A definite no is one for all ends of the value: where
the items have been laid up to a run, that run can take whatever else would be skipped in front of
them. -/
def Tells (is : List Item) (value : Text) : Option Bool → Prop
  | none => ¬ Laid is value
  | some true => Laid is value
  | some false => ∀ t, t <:+ value → ¬ Laid is t

theorem tells_some {is : List Item} {value : Text} {b : Bool} (htrue : b = true → Laid is value)
    (hfalse : b = false → ∀ t, t <:+ value → ¬ Laid is t) : Tells is value (some b) := by
  cases b with
  | false => exact hfalse rfl
  | true => exact htrue rfl

theorem seek_iff {is : List Item} {answer : Text → Option Bool}
    (h : ∀ t, Tells is t (answer t)) (value : Text) :
    seek answer value = true ↔ ∃ t, t <:+ value ∧ Laid is t := by
  induction value with
  | nil =>
    have htells := h []
    rw [seek]
    simp only [List.suffix_nil, exists_eq_left]
    match answer [], htells with
    | none, hno => simpa [Tells] using hno
    | some true, hyes => simpa [Tells] using hyes
    | some false, hno => simpa using hno [] List.suffix_rfl
  | cons c r ih =>
    have htells := h (c :: r)
    rw [seek]
    match answer (c :: r), htells with
    | none, hno =>
      simp only [ih, List.suffix_cons_iff, or_and_right, exists_or, exists_eq_left]
      exact ⟨.inr, fun h => h.resolve_left hno⟩
    | some true, hyes => simpa using ⟨_, List.suffix_rfl, hyes⟩
    | some false, hno => simpa [Tells] using hno

/-- What is told of the rest of the items goes for all of them, if the first is laid over one
character. -/
theorem Tells.cons {i : Item} {is : List Item} {c : Char} {r : Text} {answer : Option Bool}
    (h : Tells is r answer) (hc : Laid is r → Laid (i :: is) (c :: r))
    (hi : ∀ {t}, Laid (i :: is) t → ∃ d u, t = d :: u ∧ Laid is u) :
    Tells (i :: is) (c :: r) answer := by
  match answer, h with
  | none, hno =>
    intro h
    obtain ⟨_, _, ⟨⟩, h⟩ := hi h
    exact hno h
  | some true, hyes => exact hc hyes
  | some false, hno =>
    intro t ht h
    obtain ⟨d, u, rfl, hu⟩ := hi h
    exact hno u (suffix_of_cons ht) hu

theorem tells_lay (is : List Item) (value : Text) : Tells is value (lay is value) := by
  induction is generalizing value with
  | nil =>
    cases value with
    | nil => exact Laid.nil
    | cons c r => exact nofun
  | cons i is ih =>
    cases value with
    | nil =>
      rw [lay]
      apply tells_some
      · intro h
        exact laid_nil.2 (by simpa using h)
      · intro h t ht hlaid
        rw [List.suffix_nil.1 ht, laid_nil] at hlaid
        have hall : (i :: is).all (· = .anyRun) = true := by simpa using hlaid
        rw [hall] at h
        cases h
    | cons c r =>
      cases i with
      | anyRun =>
        rw [lay]
        have hseek := seek_iff (ih ·) (c :: r)
        apply tells_some
        · exact fun h => laid_anyRun.2 (hseek.1 h)
        · intro h t ht hlaid
          obtain ⟨u, hu, hlaid⟩ := laid_anyRun.1 hlaid
          rw [hseek.2 ⟨u, hu.trans ht, hlaid⟩] at h
          cases h
      | anyOne =>
        exact (ih r).cons (.anyOne c) laid_anyOne.1
      | exactly d =>
        rw [lay]
        split
        · rename_i hcd
          subst hcd
          refine (ih r).cons (.exactly c) ?_
          intro t h
          exact ⟨c, laid_exactly_cons.1 h⟩
        · rename_i hcd
          intro h
          obtain ⟨_, ⟨⟩, -⟩ := laid_exactly_cons.1 h
          exact hcd rfl

theorem accept_iff {is : List Item} {value : Text} : accept is value = true ↔ Laid is value := by
  have h := tells_lay is value
  rw [accept]
  match lay is value, h with
  | none, hno => simpa [Tells] using hno
  | some true, hyes => simpa [Tells] using hyes
  | some false, hno => simpa using hno value List.suffix_rfl

theorem matchesExactly_iff {pattern value : Text} :
    matchesExactly pattern value = true ↔ Laid (items pattern) value := accept_iff

/-! ## Case -/

/-- Only letters have another case. -/
theorem eq_of_toLower {c d : Char} (hd : d.isAlpha = false) (h : c.toLower = d) : c = d := by
  subst h
  have hno := Bool.and_eq_false_iff.1 (Bool.or_eq_false_iff.1 hd).2
  rw [decide_eq_false_iff_not, decide_eq_false_iff_not] at hno
  change ¬ 97 ≤ c.toLower.toNat ∨ ¬ c.toLower.toNat ≤ 122 at hno
  rw [Text.toNat_toLower] at hno
  rw [← Char.toNat_inj, Text.toNat_toLower]
  grind

/-- An item with its letter made small. -/
def Item.lower : Item → Item
  | .anyRun => .anyRun
  | .anyOne => .anyOne
  | .exactly c => .exactly c.toLower

theorem items_cons_exactly {c : Char} {r : Text} (hrun : c ≠ '%') (hone : c ≠ '_')
    (hcover : c = '\\' → r = []) : items (c :: r) = .exactly c :: items r := by
  rw [items]
  · exact hrun
  · exact hone
  · rintro d r' rfl rfl
    cases hcover rfl

theorem items_lower (pattern : Text) :
    items (Text.lower pattern) = (items pattern).map Item.lower := by
  fun_induction items pattern with
  | case1 => rfl
  | case2 r ih => exact congrArg (Item.anyRun :: ·) ih
  | case3 r ih => exact congrArg (Item.anyOne :: ·) ih
  | case4 c r ih => exact congrArg (Item.exactly c.toLower :: ·) ih
  | case5 c r hrun hone hcover ih =>
    have hitems : items (c.toLower :: Text.lower r) = .exactly c.toLower :: items (Text.lower r) := by
      apply items_cons_exactly
      · exact fun h => hrun (eq_of_toLower rfl h)
      · exact fun h => hone (eq_of_toLower rfl h)
      · intro h
        cases r with
        | nil => rfl
        | cons d r => exact absurd rfl (hcover d r (eq_of_toLower rfl h))
    rw [List.map_cons, ← ih]
    exact hitems

theorem Laid.lower {is : List Item} {value : Text} (h : Laid is value) :
    Laid (is.map Item.lower) (Text.lower value) := by
  induction h with
  | nil => exact .nil
  | anyRun run h ih =>
    rw [Text.lower, List.map_append]
    exact .anyRun _ ih
  | anyOne c h ih => exact .anyOne _ ih
  | exactly c h ih => exact .exactly _ ih

theorem matchesIgnoringCase_of_exactly {pattern value : Text}
    (h : matchesExactly pattern value = true) : matchesIgnoringCase pattern value = true := by
  rw [matchesIgnoringCase, matchesExactly_iff, items_lower]
  exact (matchesExactly_iff.1 h).lower

/-! ## Patterns without wildcards -/

/-- The pattern without the backslashes that make the next character stand for itself. -/
def uncovered : Text → Text
  | [] => []
  | '\\' :: c :: r => c :: uncovered r
  | c :: r => c :: uncovered r

/-- Without wildcards a pattern is a text. -/
theorem items_uncovered {pattern : Text} (hwild : hasWildcards pattern = false) :
    items pattern = (uncovered pattern).map .exactly := by
  unfold hasWildcards at hwild
  fun_induction items pattern with
  | case1 => rfl
  | case2 r ih => cases hwild
  | case3 r ih => cases hwild
  | case4 c r ih => exact congrArg (Item.exactly c :: ·) (ih hwild)
  | case5 c r hrun hone hcover ih =>
    have huncovered : uncovered (c :: r) = c :: uncovered r := by
      rw [uncovered]
      exact hcover
    rw [huncovered, List.map_cons, ih hwild]

theorem uncovered_eq_self {pattern : Text} (hcover : '\\' ∉ pattern) :
    uncovered pattern = pattern := by
  fun_induction uncovered pattern with
  | case1 => rfl
  | case2 c r ih => exact absurd List.mem_cons_self hcover
  | case3 c r _ ih => rw [ih fun h => hcover (List.mem_cons_of_mem c h)]

theorem items_plain {pattern : Text} (hcover : '\\' ∉ pattern)
    (hwild : hasWildcards pattern = false) : items pattern = pattern.map .exactly := by
  rw [items_uncovered hwild, uncovered_eq_self hcover]

theorem laid_exactly {chars value : Text} : Laid (chars.map .exactly) value ↔ value = chars := by
  induction chars generalizing value with
  | nil =>
    constructor
    · rintro ⟨⟩
      rfl
    · rintro rfl
      exact .nil
  | cons c chars ih =>
    constructor
    · intro h
      cases h with
      | exactly _ h => rw [ih.1 h]
    · rintro rfl
      exact .exactly c (ih.2 rfl)

/-- A pattern without wildcards matches one value. -/
theorem matchesExactly_uncovered {pattern value : Text} (hwild : hasWildcards pattern = false) :
    matchesExactly pattern value = true ↔ value = uncovered pattern := by
  rw [matchesExactly_iff, items_uncovered hwild, laid_exactly]

theorem matchesExactly_plain {pattern value : Text} (hcover : '\\' ∉ pattern)
    (hwild : hasWildcards pattern = false) :
    matchesExactly pattern value = true ↔ value = pattern := by
  rw [matchesExactly_uncovered hwild, uncovered_eq_self hcover]

theorem matchesIgnoringCase_plain {pattern value : Text} (hcover : '\\' ∉ pattern)
    (hwild : hasWildcards pattern = false) :
    matchesIgnoringCase pattern value = true ↔ Text.lower value = Text.lower pattern := by
  have hlower : (pattern.map Item.exactly).map Item.lower = (Text.lower pattern).map .exactly := by
    rw [Text.lower, List.map_map, List.map_map]
    rfl
  rw [matchesIgnoringCase, matchesExactly_iff, items_lower, items_plain hcover hwild, hlower,
    laid_exactly]

end TypedMirror.KeyPattern
