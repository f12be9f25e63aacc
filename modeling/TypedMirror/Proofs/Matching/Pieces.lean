import Mathlib.Data.List.Forall2
import TypedMirror.Proofs.Matching

/-!
# Values in pieces

A pattern fits a value that can be split into pieces, one behind the other, so that each part of the
pattern matches its piece.  This is said of the written pattern, without the items that it is read
as, and for any way to compare characters.

* `laid_map_iff` — laying items is splitting the value;
* `matches_iff_fits` — what the two matchers find, with case and without it.
-/

namespace TypedMirror.KeyPattern

/-- The value can be split into pieces that match the parts of the pattern in their order, `same`
telling which characters are equal. -/
inductive Fits (same : Char → Char → Prop) : Text → Text → Prop
  | nil : Fits same [] []
  | anyRun {p v : Text} (run : Text) (h : Fits same p v) : Fits same ('%' :: p) (run ++ v)
  | anyOne {p v : Text} (c : Char) (h : Fits same p v) : Fits same ('_' :: p) (c :: v)
  | covered {p v : Text} {c d : Char} (hc : same c d) (h : Fits same p v) :
    Fits same ('\\' :: c :: p) (d :: v)
  | lastBackslash {d : Char} (hd : same '\\' d) : Fits same ['\\'] [d]
  | itself {p v : Text} {c d : Char} (hrun : c ≠ '%') (hone : c ≠ '_') (hcover : c ≠ '\\')
    (hc : same c d) (h : Fits same p v) : Fits same (c :: p) (d :: v)

/-- The same letter, perhaps once small and once capital, or the same character that is no letter. -/
def SameLetter (c d : Char) : Prop := c.toLower = d.toLower

/-! ## Items -/

/-- An item with another character. -/
def Item.map (f : Char → Char) : Item → Item
  | .anyRun => .anyRun
  | .anyOne => .anyOne
  | .exactly c => .exactly (f c)

theorem Item.map_id : Item.map id = id := by
  funext i
  cases i <;> rfl

theorem Item.lower_eq_map : Item.lower = Item.map Char.toLower := by
  funext i
  cases i <;> rfl

variable {f : Char → Char}

/-- A character stands for itself if it is neither a wildcard nor a backslash with something behind
it. -/
theorem fits_exactly {p v : Text} {c d : Char} (hrun : c ≠ '%') (hone : c ≠ '_')
    (hcover : c = '\\' → p = []) (hcd : f c = f d) (h : Fits (fun c d => f c = f d) p v) :
    Fits (fun c d => f c = f d) (c :: p) (d :: v) := by
  by_cases hc : c = '\\'
  · subst hc
    obtain rfl := hcover rfl
    cases h
    exact .lastBackslash hcd
  · exact .itself hrun hone hc hcd h

theorem fits_of_laid {pattern value : Text}
    (h : Laid ((items pattern).map (Item.map f)) (value.map f)) :
    Fits (fun c d => f c = f d) pattern value := by
  fun_induction items pattern generalizing value with
  | case1 =>
    generalize hvalue : value.map f = v at h
    cases h
    obtain rfl := List.map_eq_nil_iff.1 hvalue
    exact .nil
  | case2 r ih =>
    obtain ⟨t, ⟨run, hvalue⟩, h⟩ := laid_anyRun.1 h
    obtain ⟨run, v, rfl, -, rfl⟩ := List.map_eq_append_iff.1 hvalue.symm
    exact .anyRun run (ih h)
  | case3 r ih =>
    obtain ⟨_, t, hvalue, h⟩ := laid_anyOne.1 h
    obtain ⟨d, v, rfl, -, rfl⟩ := List.map_eq_cons_iff.1 hvalue
    exact .anyOne d (ih h)
  | case4 c r ih =>
    obtain ⟨t, hvalue, h⟩ := laid_exactly_cons.1 h
    obtain ⟨d, v, rfl, hd, rfl⟩ := List.map_eq_cons_iff.1 hvalue
    exact .covered hd.symm (ih h)
  | case5 c r hrun hone hcover ih =>
    obtain ⟨t, hvalue, h⟩ := laid_exactly_cons.1 h
    obtain ⟨d, v, rfl, hd, rfl⟩ := List.map_eq_cons_iff.1 hvalue
    refine fits_exactly hrun hone ?_ hd.symm (ih h)
    intro hc
    cases r with
    | nil => rfl
    | cons e r => exact (hcover e r hc rfl).elim

theorem laid_of_fits {pattern value : Text} (h : Fits (fun c d => f c = f d) pattern value) :
    Laid ((items pattern).map (Item.map f)) (value.map f) := by
  induction h with
  | nil => exact .nil
  | anyRun run h ih =>
    rw [List.map_append]
    exact .anyRun _ ih
  | anyOne c h ih => exact .anyOne _ ih
  | @covered p v c d hc h ih =>
    rw [items, List.map_cons, List.map_cons, ← hc]
    exact .exactly _ ih
  | @lastBackslash d hd =>
    show Laid [.exactly (f '\\')] [f d]
    rw [← hd]
    exact .exactly _ .nil
  | @itself p v c d hrun hone hcover hc h ih =>
    rw [items_cons_exactly hrun hone (absurd · hcover), List.map_cons, List.map_cons, ← hc]
    exact .exactly _ ih

theorem laid_map_iff {pattern value : Text} :
    Laid ((items pattern).map (Item.map f)) (value.map f) ↔
      Fits (fun c d => f c = f d) pattern value :=
  ⟨fits_of_laid, laid_of_fits⟩

/-! ## Wildcards -/

theorem exists_laid (is : List Item) : ∃ value, Laid is value := by
  induction is with
  | nil => exact ⟨[], .nil⟩
  | cons i is ih =>
    obtain ⟨value, h⟩ := ih
    cases i with
    | anyRun => exact ⟨value, .anyRun [] h⟩
    | anyOne => exact ⟨'_' :: value, .anyOne '_' h⟩
    | exactly c => exact ⟨c :: value, .exactly c h⟩

/-- A wildcard leaves a choice. -/
theorem exists_ne_of_laid {is : List Item} (h : ∃ i ∈ is, i = .anyRun ∨ i = .anyOne) :
    ∃ v w, v ≠ w ∧ Laid is v ∧ Laid is w := by
  induction is with
  | nil => simp at h
  | cons i is ih =>
    obtain ⟨value, hvalue⟩ := exists_laid is
    cases i with
    | anyRun => exact ⟨value, '%' :: value, by simp, .anyRun [] hvalue, .anyRun ['%'] hvalue⟩
    | anyOne => exact ⟨'%' :: value, '_' :: value, by simp, .anyOne '%' hvalue, .anyOne '_' hvalue⟩
    | exactly c =>
      obtain ⟨v, w, hne, hv, hw⟩ := ih (by simpa using h)
      exact ⟨c :: v, c :: w, by simpa using hne, .exactly c hv, .exactly c hw⟩

theorem exists_ne_of_hasWildcards {pattern : Text} (hwild : hasWildcards pattern = true) :
    ∃ v w, v ≠ w ∧ matchesExactly pattern v = true ∧ matchesExactly pattern w = true := by
  simp only [matchesExactly_iff]
  apply exists_ne_of_laid
  simpa [hasWildcards] using hwild

/-! ## Both matchers -/

theorem matchesExactly_iff_fits {pattern value : Text} :
    matchesExactly pattern value = true ↔ Fits Eq pattern value := by
  have h : Laid ((items pattern).map (Item.map id)) (value.map id) ↔ Fits Eq pattern value :=
    laid_map_iff
  rwa [Item.map_id, List.map_id, List.map_id, ← matchesExactly_iff] at h

theorem matchesIgnoringCase_iff_fits {pattern value : Text} :
    matchesIgnoringCase pattern value = true ↔ Fits SameLetter pattern value := by
  rw [matchesIgnoringCase, matchesExactly_iff, items_lower, Item.lower_eq_map]
  exact laid_map_iff

theorem lower_eq_iff {t t' : Text} : List.Forall₂ SameLetter t t' ↔ Text.lower t = Text.lower t' := by
  unfold Text.lower
  rw [← List.forall₂_eq_eq_eq, List.forall₂_map_left_iff, List.forall₂_map_right_iff]
  rfl

/-- A value matches a pattern just if it can be split into pieces that do, part by part, and without
case just if it can be so up to the case of letters.  What matches with its case matches without it,
where neither the case of the pattern nor that of the value makes a difference.  Without wildcards
only one value matches, that which the pattern spells, and with a wildcard there are others. -/
theorem matches_iff_fits (pattern value : Text) :
    (matchesExactly pattern value = true ↔ Fits Eq pattern value) ∧
      (matchesIgnoringCase pattern value = true ↔ Fits SameLetter pattern value) ∧
      (matchesExactly pattern value = true → matchesIgnoringCase pattern value = true) ∧
      (∀ pattern' value', List.Forall₂ SameLetter pattern pattern' →
        List.Forall₂ SameLetter value value' →
          matchesIgnoringCase pattern' value' = matchesIgnoringCase pattern value) ∧
      (hasWildcards pattern = false →
        ∀ v, matchesExactly pattern v = true ↔ v = uncovered pattern) ∧
      (hasWildcards pattern = true →
        ∃ v w, v ≠ w ∧ matchesExactly pattern v = true ∧ matchesExactly pattern w = true) := by
  refine ⟨matchesExactly_iff_fits, matchesIgnoringCase_iff_fits, ?_, ?_, ?_, ?_⟩
  · exact matchesIgnoringCase_of_exactly
  · intro pattern' value' hpattern hvalue
    unfold matchesIgnoringCase
    rw [lower_eq_iff.1 hpattern, lower_eq_iff.1 hvalue]
  · exact fun hwild v => matchesExactly_uncovered hwild
  · exact exists_ne_of_hasWildcards

end TypedMirror.KeyPattern
