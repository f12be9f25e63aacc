import TypedMirror.Template

/-!
# Segments that are read back

A text made of segments is not always cut into the same segments again: the name of a marker may hold
brackets, and two brackets of the text next to each other may be read as the start of a marker.

* `read?_write` — a marker with a plain name is read back;
* `segments_append` — segments that can be read are read, whatever text follows;
* `segments_flatMap` — a text made of such segments has these segments.
-/

namespace TypedMirror

namespace Text

variable {sep w t : Text} {c : Char}

theorem after?_cons_of_ne {a : Char} (h : a ≠ c) : after? (a :: sep) (c :: t) = none := by
  rw [after?, if_neg h]

theorem cut_of_after? {rest : Text} (h : after? sep t = some rest) : cut sep t = some ([], rest) := by
  unfold cut
  rw [h]

theorem cut_cons (h : after? sep (c :: t) = none) :
    cut sep (c :: t) = (cut sep t).map fun p => (c :: p.1, p.2) := by
  rw [cut, h]

/-- A separator starts in none of the characters that are not its first. -/
theorem cut_append {a : Char} (h : a ∉ w) :
    cut (a :: sep) (w ++ t) = (cut (a :: sep) t).map fun p => (w ++ p.1, p.2) := by
  induction w with
  | nil => simp
  | cons c w ih =>
    rw [List.mem_cons, not_or] at h
    rw [List.cons_append, cut_cons (after?_cons_of_ne h.1), ih h.2, Option.map_map]
    rfl

theorem has_cons :
    has (c :: t) sep = false ↔ after? sep (c :: t) = none ∧ has t sep = false := by
  unfold has
  cases hafter : after? sep (c :: t) with
  | some rest =>
    rw [cut_of_after? hafter]
    simp
  | none =>
    rw [cut_cons hafter, Option.isSome_map]
    simp

theorem has_append_cons {a : Char} (h : a ∉ w) : has (w ++ t) (a :: sep) = has t (a :: sep) := by
  unfold has
  rw [cut_append h, Option.isSome_map]

theorem has_of_append {a b : Text} (h : t = a ++ sep ++ b) : has t sep = true := by
  subst h
  unfold has
  induction a with
  | nil =>
    rw [List.nil_append, cut_of_after? (after?_eq_some.2 rfl)]
    rfl
  | cons c a ih =>
    cases hafter : after? sep (c :: a ++ sep ++ b) with
    | some rest =>
      rw [cut_of_after? hafter]
      rfl
    | none =>
      rw [List.cons_append, List.cons_append] at hafter ⊢
      rw [cut_cons hafter, Option.isSome_map]
      exact ih

/-- The first separator of a text stays the first one, whatever is put behind the text. -/
theorem cut_append_right {a b : Text} (h : cut sep t = some (a, b)) (u : Text) :
    cut sep (t ++ u) = some (a, b ++ u) := by
  induction t generalizing a with
  | nil =>
    cases hafter : after? sep [] with
    | none =>
      unfold cut at h
      rw [hafter] at h
      cases h
    | some rest =>
      rw [cut_of_after? hafter] at h
      cases h
      have := after?_eq_some.1 hafter
      exact cut_of_after? (after?_eq_some.2 (by rw [← List.append_assoc, ← this]))
  | cons c t ih =>
    cases hafter : after? sep (c :: t) with
    | some rest =>
      rw [cut_of_after? hafter] at h
      cases h
      have := after?_eq_some.1 hafter
      exact cut_of_after? (after?_eq_some.2 (by rw [← List.append_assoc, ← this]))
    | none =>
      rw [cut_cons hafter] at h
      obtain ⟨⟨a, b⟩, hcut, heq⟩ := Option.map_eq_some_iff.1 h
      cases heq
      have hlater : after? sep (c :: (t ++ u)) = none := by
        cases hsome : after? sep (c :: (t ++ u)) with
        | none => rfl
        | some rest =>
          -- the separator does not reach beyond the text, which holds one later on
          have hlength := congrArg List.length (cut_eq_some hcut)
          have hprefix : sep <+: c :: t := by
            refine List.prefix_of_prefix_length_le ⟨rest, (after?_eq_some.1 hsome).symm⟩
              (List.prefix_append (c :: t) u) ?_
            simp at hlength ⊢
            omega
          obtain ⟨after, hprefix⟩ := hprefix
          rw [after?_eq_some.2 hprefix.symm] at hafter
          cases hafter
      rw [List.cons_append, cut_cons hlater, ih hcut]
      rfl

end Text

namespace Marker

/-! ## Markers -/

/-- The name is what stands between the brackets when the marker is read. -/
structure Plain (m : Marker) : Prop where
  noOpening : Text.has m.name opening = false
  noClosing : Text.has m.name closing = false
  last : m.name.getLast? ≠ some ']'

theorem cut_closing {name : Text} (h : Text.has name closing = false)
    (hlast : name.getLast? ≠ some ']') (rest : Text) :
    Text.cut closing (name ++ closing ++ rest) = some (name, rest) := by
  induction name with
  | nil => exact Text.cut_of_after? (Text.after?_eq_some.2 rfl)
  | cons c name ih =>
    obtain ⟨hafter, hname⟩ := Text.has_cons.1 h
    have hnone : Text.after? closing (c :: (name ++ closing ++ rest)) = none := by
      by_cases hc : ']' = c
      · subst hc
        cases name with
        | nil => exact absurd rfl hlast
        | cons d name =>
          have hd : ']' ≠ d := by
            rintro rfl
            cases hafter
          exact (if_pos rfl).trans (Text.after?_cons_of_ne hd)
      · exact Text.after?_cons_of_ne hc
    have hlast' : name.getLast? ≠ some ']' := by
      intro hl
      apply hlast
      rw [List.getLast?_cons, hl]
      rfl
    rw [List.cons_append, List.cons_append, Text.cut_cons hnone, ih hname hlast']
    rfl

theorem ofWord?_word (k : Kind) : Kind.ofWord? k.word = some k := by cases k <;> decide

theorem not_mem_word (k : Kind) : ']' ∉ k.word ∧ ':' ∉ k.word := by cases k <;> decide

theorem exists_word_eq_cons (k : Kind) : ∃ c w, k.word = c :: w ∧ c ≠ '[' := by
  cases k <;> exact ⟨_, _, rfl, by decide⟩

theorem read?_opening (r : Text) : read? ('[' :: '[' :: r) = (do
    let (body, rest) ← Text.cut closing r
    let (word, name) ← Text.cut [':'] body
    let kind ← Kind.ofWord? word
    if Text.has name opening then none else some (⟨kind, name⟩, rest)) := rfl

theorem read?_of_head_ne {c : Char} {r : Text} (h : c = '[' → r.head? ≠ some '[') :
    read? (c :: r) = none := by
  unfold read?
  split
  · rename_i heq
    cases heq
    exact absurd rfl (h rfl)
  · rfl

/-- The body between the first brackets after an opening is cut at its first colon. -/
theorem read?_of_cut {r body rest name : Text} {k : Kind} (h : Text.cut closing r = some (body, rest))
    (hbody : body = k.word ++ ':' :: name) :
    read? ('[' :: '[' :: r) = if Text.has name opening then none else some (⟨k, name⟩, rest) := by
  have hcolon : Text.cut [':'] body = some (k.word, name) := by
    have hname : Text.cut [':'] (':' :: name) = some ([], name) :=
      Text.cut_of_after? (Text.after?_eq_some.2 rfl)
    rw [hbody, Text.cut_append (not_mem_word k).2, hname]
    simp
  simp only [read?_opening, h, Option.bind_eq_bind, Option.bind_some, hcolon, ofWord?_word]

theorem cut_write {m : Marker} {r : Text} : Text.cut closing (m.kind.word ++ ':' :: r) =
    (Text.cut closing r).map fun p => (m.kind.word ++ ':' :: p.1, p.2) := by
  have hword : ']' ∉ m.kind.word ++ [':'] := by
    rw [List.mem_append, List.mem_singleton, not_or]
    exact ⟨(not_mem_word _).1, by decide⟩
  rw [List.append_cons]
  refine (Text.cut_append hword).trans ?_
  simp only [List.append_assoc, List.singleton_append]
  rfl

theorem read?_write {m : Marker} (h : m.Plain) (rest : Text) :
    read? (m.write ++ rest) = some (m, rest) := by
  have hcut : Text.cut closing (m.kind.word ++ ':' :: (m.name ++ closing ++ rest)) =
      some (m.kind.word ++ ':' :: m.name, rest) := by
    rw [cut_write, cut_closing h.noClosing h.last]
    rfl
  have hwrite : m.write ++ rest =
      '[' :: '[' :: (m.kind.word ++ ':' :: (m.name ++ closing ++ rest)) := by
    simp [write, opening]
  rw [hwrite, read?_of_cut hcut rfl, h.noOpening]
  rfl

/-- A third bracket is never the first character of a marker's word. -/
theorem read?_stray (r : Text) : read? ('[' :: '[' :: '[' :: r) = none := by
  cases hread : read? ('[' :: '[' :: '[' :: r) with
  | none => rfl
  | some p =>
    obtain ⟨m, rest⟩ := p
    obtain ⟨c, w, hw, hc⟩ := exists_word_eq_cons m.kind
    have heq : some '[' = some c := by
      have := congrArg (·[2]?) (read?_eq_some hread)
      rw [write, hw] at this
      exact this
    exact absurd (Option.some.inj heq).symm hc

end Marker

namespace Template

/-! ## Segments -/

/-- No two brackets of the text come together, and all names of markers are plain. -/
def Readable : List Segment → Prop
  | [] => True
  | .char c :: ss => (c = '[' → ss.head? ≠ some (.char '[')) ∧ Readable ss
  | .marker m :: ss => m.Plain ∧ Readable ss

variable {ss us : List Segment} {m : Marker} {t rest : Text} {c : Char}

theorem segments_nil : segments [] = [] := by
  rw [segments]
  rfl

theorem segments_of_read? (h : Marker.read? t = some (m, rest)) :
    segments t = .marker m :: segments rest := by
  rw [segments]
  split
  · rename_i heq
    cases h.symm.trans heq
    rfl
  · rename_i heq
    cases h.symm.trans heq

theorem segments_cons (h : Marker.read? (c :: t) = none) :
    segments (c :: t) = .char c :: segments t := by
  rw [segments]
  split
  · rename_i heq
    cases h.symm.trans heq
  · rfl

theorem Readable.left (h : Readable (ss ++ us)) : Readable ss := by
  induction ss with
  | nil => trivial
  | cons s ss ih =>
    cases s with
    | char c =>
      refine ⟨fun hc hhead => h.1 hc ?_, ih h.2⟩
      cases ss with
      | nil => cases hhead
      | cons s ss => exact hhead
    | marker m => exact ⟨h.1, ih h.2⟩

theorem Readable.right (h : Readable (ss ++ us)) : Readable us := by
  induction ss with
  | nil => exact h
  | cons s ss ih =>
    cases s with
    | char c => exact ih h.2
    | marker m => exact ih h.2

/-- Segments are read one by one, unless a bracket at the end meets one of the text behind. -/
theorem segments_append (h : Readable ss)
    (hlast : ss.getLast? = some (.char '[') → t.head? ≠ some '[') :
    segments (ss.flatMap Segment.text ++ t) = ss ++ segments t := by
  induction ss with
  | nil => rfl
  | cons s ss ih =>
    have hlast' : ss.getLast? = some (.char '[') → t.head? ≠ some '[' := by
      intro hl
      apply hlast
      rw [List.getLast?_cons, hl]
      rfl
    rw [List.flatMap_cons, List.append_assoc]
    cases s with
    | marker m =>
      rw [Segment.text, segments_of_read? (Marker.read?_write h.1 _), ih h.2 hlast']
      rfl
    | char c =>
      have hnone : Marker.read? (c :: (ss.flatMap Segment.text ++ t)) = none := by
        rcases ss with _ | ⟨d | m, ss⟩
        · apply Marker.read?_of_head_ne
          rintro rfl
          exact hlast rfl
        · apply Marker.read?_of_head_ne
          intro hc hd
          apply h.1 hc
          cases hd
          rfl
        · -- the bracket stands right before a marker
          by_cases hc : c = '['
          · subst hc
            exact Marker.read?_stray _
          · exact Marker.read?_of_head_ne fun h => absurd h hc
      show segments (c :: (ss.flatMap Segment.text ++ t)) = _
      rw [segments_cons hnone, ih h.2 hlast']
      rfl

theorem segments_flatMap (h : Readable ss) : segments (ss.flatMap Segment.text) = ss := by
  have := segments_append (t := []) h fun _ => by simp
  rwa [List.append_nil, segments_nil, List.append_nil] at this

end Template

end TypedMirror
