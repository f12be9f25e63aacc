import TypedMirror.Mirror.Identifier
import TypedMirror.Proofs.Renaming.Deflated

/-!
# Words of a text

A word of a text is a run of word characters that neither side goes on with.  The search for a name
passes over the whole of each occurrence, and what it passes over are word characters, so that no word
of the text starts there.

* `mentionsFrom_iff` — what the search finds from some place on;
* `mentions_iff` — a name is found just where it is a word of the text;
* `Run.of_append`, `Run.append_left`, `Run.append_right` — words of a text in two parts.
-/

namespace TypedMirror.Text

/-- `word` stands in the text behind `before` and in front of `behind`, as a maximal run of word
characters. -/
structure Run (text before word behind : Text) : Prop extends IsWord word where
  split : text = before ++ (word ++ behind)
  left : ∀ c ∈ before.getLast?, Text.isWordChar c = false
  right : ∀ c ∈ behind.head?, Text.isWordChar c = false

/-! ## The search for a name -/

section Search

variable {name text before : Text} {c : Char}

theorem isEdge_iff {o : Option Char} : isEdge o = true ↔ ∀ c ∈ o, isWordChar c = false := by
  cases o with
  | none => simp [isEdge]
  | some c => simp [isEdge]

/-- The name stands somewhere in the text with an edge on both sides, where `before` stands ahead of
the text. -/
def Bounded (name before text : Text) : Prop :=
  ∃ a b, text = a ++ (name ++ b) ∧ isEdge (before ++ a).getLast? = true ∧ isEdge b.head? = true

theorem not_bounded_nil (hname : name ≠ []) : ¬ Bounded name before [] := by
  rintro ⟨a, b, htext, -, -⟩
  have := List.append_eq_nil_iff.1 htext.symm
  exact hname (List.append_eq_nil_iff.1 this.2).1

/-- Where the name does not stand at the head of the text, it can only stand further on. -/
theorem bounded_cons (hnot : ∀ b, after? name (c :: text) = some b →
    ¬ (isEdge before.getLast? = true ∧ isEdge b.head? = true)) :
    Bounded name before (c :: text) ↔ Bounded name (before ++ [c]) text := by
  constructor
  · rintro ⟨a, b, htext, hleft, hright⟩
    cases a with
    | nil =>
      rw [List.append_nil] at hleft
      exact absurd ⟨hleft, hright⟩ (hnot b (after?_eq_some.2 htext))
    | cons d a =>
      rw [List.cons_append] at htext
      obtain ⟨rfl, hrest⟩ := List.cons.inj htext
      exact ⟨a, b, hrest, by rwa [List.append_assoc], hright⟩
  · rintro ⟨a, b, rfl, hleft, hright⟩
    exact ⟨c :: a, b, rfl, by rwa [List.append_assoc] at hleft, hright⟩

/-- The characters that are passed over belong to an occurrence of the name, as does the one before
them, and so the name is not bounded at any of them. -/
theorem mentionsFrom_iff (hname : name.IsWord) (skip : Nat) (before text : Text)
    (hskip : skip ≠ 0 → isEdge before.getLast? = false ∧
      ∀ c ∈ text.take skip, isWordChar c = true) :
    mentionsFrom name skip before.getLast? text = true ↔ Bounded name before text := by
  have hlast : ∀ c : Char, (before ++ [c]).getLast? = some c := fun c => List.getLast?_concat
  induction text generalizing skip before with
  | nil =>
    refine iff_of_false ?_ (not_bounded_nil hname.ne_nil)
    cases skip with
    | zero =>
      obtain ⟨d, w, rfl⟩ := List.exists_cons_of_ne_nil hname.ne_nil
      simp [mentionsFrom, after?]
    | succ skip => simp [mentionsFrom]
  | cons c r ih =>
    cases skip with
    | succ skip =>
      obtain ⟨hbefore, htake⟩ := hskip (Nat.succ_ne_zero skip)
      rw [List.take_succ_cons] at htake
      obtain ⟨hc, htake⟩ := List.forall_mem_cons.1 htake
      rw [bounded_cons fun _ _ h => by simp [hbefore] at h, mentionsFrom, ← hlast c]
      refine ih skip (before ++ [c]) (fun _ => ⟨?_, htake⟩) fun _ => List.getLast?_concat
      simp [isEdge, hc]
    | zero =>
      have hmore : ∀ skip, (skip ≠ 0 → isWordChar c = true ∧ ∀ d ∈ r.take skip, isWordChar d = true) →
          (mentionsFrom name skip (some c) r = true ↔ Bounded name (before ++ [c]) r) := by
        intro skip h
        rw [← hlast c]
        refine ih skip (before ++ [c]) (fun hs => ⟨?_, (h hs).2⟩) fun _ => List.getLast?_concat
        simp [isEdge, (h hs).1]
      rw [mentionsFrom]
      split
      · rename_i rest hrest
        have hsplit := after?_eq_some.1 hrest
        obtain ⟨d, w, hw⟩ := List.exists_cons_of_ne_nil hname.ne_nil
        have hword : ∀ e ∈ d :: w, isWordChar e = true := hw ▸ hname.isWordChar
        have hpassed := hmore (name.length - 1) fun _ => by
          rw [hw, List.cons_append] at hsplit
          obtain ⟨rfl, rfl⟩ := List.cons.inj hsplit
          rw [hw, List.length_cons, Nat.add_sub_cancel, List.take_left' rfl]
          exact List.forall_mem_cons.1 hword
        rw [Bool.or_eq_true, Bool.and_eq_true]
        by_cases hedges : isEdge before.getLast? = true ∧ isEdge rest.head? = true
        · exact iff_of_true (.inl hedges)
            ⟨[], rest, hsplit, by rw [List.append_nil]; exact hedges.1, hedges.2⟩
        · have hnot : ∀ b, after? name (c :: r) = some b →
              ¬ (isEdge before.getLast? = true ∧ isEdge b.head? = true) := by
            intro b hb
            rw [hrest] at hb
            exact Option.some.inj hb ▸ hedges
          rw [bounded_cons hnot, or_iff_right hedges]
          exact hpassed
      · rename_i hnone
        rw [bounded_cons fun b hb => by rw [hnone] at hb; cases hb]
        exact hmore 0 fun h => absurd rfl h

theorem mentions_iff (hname : name.IsWord) :
    mentions text name = true ↔ ∃ before behind, Run text before name behind := by
  refine (mentionsFrom_iff hname 0 [] text fun h => absurd rfl h).trans ?_
  constructor
  · rintro ⟨a, b, htext, hleft, hright⟩
    exact ⟨a, b, hname, htext, isEdge_iff.1 hleft, isEdge_iff.1 hright⟩
  · rintro ⟨a, b, h⟩
    exact ⟨a, b, h.split, isEdge_iff.2 h.left, isEdge_iff.2 h.right⟩

end Search

/-! ## Two parts of a text -/

/-- No word goes over the place where the two parts meet. -/
def Parted (x y : Text) : Prop :=
  (∀ c ∈ x.getLast?, isWordChar c = false) ∨ ∀ c ∈ y.head?, isWordChar c = false

theorem Parted.of_append {x y z : Text} (h : Parted (x ++ y) z) : Parted y z := by
  refine h.imp (fun h c hc => h c ?_) id
  rw [List.getLast?_append, Option.mem_def.1 hc]
  rfl

namespace Run

variable {x y a b w : Text}

theorem of_append (hxy : Parted x y) (h : Run (x ++ y) a w b) :
    (∃ b', Run x a w b') ∨ ∃ a', a = x ++ a' ∧ Run y a' w b := by
  have behind : ∀ {a'}, a = x ++ a' → y = a' ++ (w ++ b) → ∃ a', a = x ++ a' ∧ Run y a' w b := by
    rintro a' rfl hy
    refine ⟨a', rfl, h.toIsWord, hy, ?_, h.right⟩
    intro c hc
    refine h.left c ?_
    rw [List.getLast?_append, Option.mem_def.1 hc]
    rfl
  rcases List.append_eq_append_iff.1 h.split with ⟨a', ha, hy⟩ | ⟨z, hx, hz⟩
  · exact .inr (behind ha hy)
  rcases List.append_eq_append_iff.1 hz with ⟨b', rfl, hb⟩ | ⟨v, hw, hy⟩
  · -- the word ends in the first part
    refine .inl ⟨b', h.toIsWord, hx, h.left, ?_⟩
    intro c hc
    refine h.right c ?_
    rw [hb, List.head?_append, Option.mem_def.1 hc]
    rfl
  rcases List.eq_nil_or_concat z with rfl | ⟨z, d, rfl⟩
  · rw [List.nil_append] at hw
    rw [List.append_nil] at hx
    refine .inr (behind ((List.append_nil x).trans hx).symm ?_)
    rw [hy, hw, List.nil_append]
  rw [List.concat_eq_append] at hx hw
  cases v with
  | nil =>
    rw [List.append_nil] at hw
    exact .inl ⟨[], h.toIsWord, by rw [hw, List.append_nil, hx], h.left, by simp⟩
  | cons e v =>
    -- the word would have a character on each side
    have hword : ∀ c ∈ w, isWordChar c = true := h.isWordChar
    rcases hxy with hxy | hxy
    · have hd := hxy d (by rw [hx, ← List.append_assoc, List.getLast?_concat]; rfl)
      rw [hword d (by rw [hw]; simp)] at hd
      cases hd
    · have he := hxy e (by rw [hy]; rfl)
      rw [hword e (by rw [hw]; simp)] at he
      cases he

theorem append_left (hxy : Parted x y) (h : Run y a w b) : Run (x ++ y) (x ++ a) w b := by
  refine ⟨h.toIsWord, by rw [h.split, List.append_assoc], ?_, h.right⟩
  intro c hc
  rcases List.eq_nil_or_concat a with rfl | ⟨a, d, rfl⟩
  · -- the word is at the head of the second part
    rw [List.append_nil] at hc
    rcases hxy with hxy | hxy
    · exact hxy c hc
    · obtain ⟨d, v, hw⟩ := List.exists_cons_of_ne_nil h.ne_nil
      have hd := hxy d (by rw [h.split, hw]; rfl)
      rw [h.isWordChar d (by rw [hw]; exact List.mem_cons_self)] at hd
      cases hd
  · rw [List.concat_eq_append, ← List.append_assoc, List.getLast?_concat] at hc
    exact h.left c (by rw [List.concat_eq_append, List.getLast?_concat]; exact hc)

theorem append_right (hxy : Parted x y) (h : Run x a w b) : Run (x ++ y) a w (b ++ y) := by
  refine ⟨h.toIsWord, by rw [h.split]; simp, h.left, ?_⟩
  intro c hc
  cases b with
  | cons d b => exact h.right c hc
  | nil =>
    rcases hxy with hxy | hxy
    · obtain ⟨v, d, hw⟩ := List.eq_nil_or_concat w |>.resolve_left h.ne_nil
      rw [List.concat_eq_append] at hw
      have hd := hxy d (by rw [h.split, hw, List.append_nil, ← List.append_assoc,
        List.getLast?_concat]; rfl)
      rw [h.isWordChar d (by rw [hw]; simp)] at hd
      cases hd
    · exact hxy c hc

end Run

end TypedMirror.Text
