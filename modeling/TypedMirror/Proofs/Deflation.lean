import TypedMirror.Proofs.Segments
import TypedMirror.Query.Deflated

/-!
# Deflating and inflating

A deflated query holds the markers of its literals and of doubled brackets, and no text that could
be read as another marker.

* `segments_ofQuery` — the segments of a deflated query;
* `readable_ofQuery` — they are read back;
* `toQuery_ofQuery` — inflating gives the query that was deflated.
-/

namespace TypedMirror

/-- A marker that deflating writes. -/
def Marker.IsStored (m : Marker) : Prop := m = ⟨.escape, []⟩ ∨ ∃ id, m = Deflated.marker id

namespace Template

/-- The segments of an escaped text. -/
def escapeSegments : Text → List Segment
  | '[' :: '[' :: r => .marker ⟨.escape, []⟩ :: escapeSegments r
  | c :: r => .char c :: escapeSegments r
  | [] => []

theorem text_escapeSegments (t : Text) : (escapeSegments t).flatMap Segment.text = escape t := by
  fun_induction escapeSegments t with
  | case1 r ih =>
    rw [List.flatMap_cons, ih, escape]
    rfl
  | case2 c r h ih =>
    rw [List.flatMap_cons, ih, escape]
    · rfl
    · exact h
  | case3 => rfl

theorem plain_escape : (Marker.mk .escape []).Plain := ⟨by decide, by decide, by decide⟩

/-- In an escaped text no bracket stands before another one. -/
theorem readable_escapeSegments {t : Text} {ss : List Segment}
    (hhead : ss.head? ≠ some (.char '[')) (h : Readable ss) : Readable (escapeSegments t ++ ss) := by
  fun_induction escapeSegments t with
  | case1 r ih => exact ⟨plain_escape, ih⟩
  | case2 c r hr ih =>
    refine ⟨?_, ih⟩
    rintro rfl
    cases r with
    | nil => exact hhead
    | cons d r =>
      have hd : d ≠ '[' := by
        rintro rfl
        exact hr r rfl rfl
      unfold escapeSegments
      split
      · rename_i heq
        cases heq
        exact absurd rfl hd
      · rename_i heq
        cases heq
        simpa using hd
      · rename_i heq
        cases heq
  | case3 => exact h

theorem isStored_of_mem_escapeSegments {t : Text} {m : Marker}
    (h : .marker m ∈ escapeSegments t) : m = ⟨.escape, []⟩ := by
  fun_induction escapeSegments t with
  | case1 r ih =>
    rcases List.mem_cons.1 h with h | h
    · cases h
      rfl
    · exact ih h
  | case2 c r _ ih =>
    rcases List.mem_cons.1 h with h | h
    · cases h
    · exact ih h
  | case3 => cases h

theorem expand_escapeSegments {resolve : Marker → Option Text}
    (h : resolve ⟨.escape, []⟩ = some Marker.opening) (t : Text) :
    (escapeSegments t).flatMap (Segment.expand resolve) = t := by
  fun_induction escapeSegments t with
  | case1 r ih =>
    rw [List.flatMap_cons, ih, Segment.expand, h]
    rfl
  | case2 c r _ ih =>
    rw [List.flatMap_cons, ih]
    rfl
  | case3 => rfl

end Template

namespace Passage

theorem isQuote_of_mem_split {t : Text} {p : Passage} (h : p ∈ (split t).1) :
    isQuote p.quote = true := by
  fun_induction split t with
  | case1 => cases h
  | case2 => cases h
  | case3 t q r hq contents rest hc _ others ih =>
    rcases List.mem_cons.1 h with rfl | h
    · have := List.head?_dropWhile_not (!isQuote ·) t
      rw [hq] at this
      simpa using this
    · exact ih h

end Passage

namespace Deflated

open Template

/-- The segments of passages with their literals numbered from `id` on, and of the text after
them. -/
def segmentsFrom (id : Nat) : List Passage → Text → List Segment
  | [], tail => escapeSegments tail
  | p :: ps, tail =>
    escapeSegments p.before ++ .char p.quote :: .marker (marker id) :: .char p.quote
      :: segmentsFrom (id + 1) ps tail

/-- The segments of a deflated query. -/
def segmentsOf (query : Text) : List Segment :=
  segmentsFrom 1 (Passage.split query).1 (Passage.split query).2

section Segments

variable {id : Nat} {ps : List Passage} {tail : Text}

theorem text_segmentsFrom (id : Nat) (ps : List Passage) (tail : Text) :
    (segmentsFrom id ps tail).flatMap Segment.text = textFrom id ps tail := by
  induction ps generalizing id with
  | nil => exact text_escapeSegments tail
  | cons p ps ih =>
    rw [segmentsFrom, textFrom, List.flatMap_append, text_escapeSegments, List.flatMap_cons,
      List.flatMap_cons, List.flatMap_cons, ih, List.append_assoc]
    rfl

/-- The number of a literal holds no bracket. -/
theorem plain_marker (id : Nat) : (marker id).Plain := by
  have hdigit : ∀ c : Char, c.isDigit = false → c ∉ Numeral.write id := by
    intro c hc hmem
    rw [Numeral.isDigit_of_mem_write hmem] at hc
    cases hc
  have hhas : ∀ a sep, a ∉ Numeral.write id → Text.has (Numeral.write id) (a :: sep) = false := by
    intro a sep ha
    rw [← List.append_nil (Numeral.write id), Text.has_append_cons ha]
    rfl
  refine ⟨hhas _ _ (hdigit _ (by decide)), hhas _ _ (hdigit _ (by decide)), ?_⟩
  intro hlast
  exact hdigit ']' (by decide) (List.mem_of_getLast? hlast)

theorem readable_segmentsFrom (hq : ∀ p ∈ ps, Passage.isQuote p.quote = true) :
    Readable (segmentsFrom id ps tail) := by
  induction ps generalizing id with
  | nil =>
    rw [segmentsFrom, ← List.append_nil (escapeSegments tail)]
    exact readable_escapeSegments (by simp) trivial
  | cons p ps ih =>
    have hne : p.quote ≠ '[' := by
      intro h
      have := hq p List.mem_cons_self
      rw [h] at this
      cases this
    have htail : Readable (segmentsFrom (id + 1) ps tail) :=
      ih fun x hx => hq x (List.mem_cons_of_mem p hx)
    refine readable_escapeSegments ?_ ⟨fun h => absurd h hne, plain_marker id, ?_, htail⟩
    · simpa using hne
    · exact fun h => absurd h hne

theorem isStored_of_mem_segmentsFrom {m : Marker} (h : .marker m ∈ segmentsFrom id ps tail) :
    m.IsStored := by
  induction ps generalizing id with
  | nil => exact .inl (isStored_of_mem_escapeSegments h)
  | cons p ps ih =>
    rcases List.mem_append.1 h with h | h
    · exact .inl (isStored_of_mem_escapeSegments h)
    · simp only [List.mem_cons, reduceCtorEq, Segment.marker.injEq, false_or] at h
      rcases h with rfl | h
      · exact .inr ⟨id, rfl⟩
      · exact ih h

/-- Where every literal and the brackets are put back, the passages are as they were. -/
theorem expand_segmentsFrom {literal : Nat → Option Text} {resolve : Marker → Option Text}
    (hescape : resolve ⟨.escape, []⟩ = some Marker.opening)
    (hliteral : ∀ id, resolve (marker id) = literal id)
    (h : ∀ i p, ps[i]? = some p → literal (id + i) = some p.contents) :
    (segmentsFrom id ps tail).flatMap (Segment.expand resolve) = ps.flatMap Passage.text ++ tail := by
  induction ps generalizing id with
  | nil => exact expand_escapeSegments hescape tail
  | cons p ps ih =>
    have hrest : (segmentsFrom (id + 1) ps tail).flatMap (Segment.expand resolve) =
        ps.flatMap Passage.text ++ tail := by
      apply ih
      intro i x hx
      rw [Nat.add_assoc, Nat.add_comm 1 i]
      exact h (i + 1) x hx
    have hp : Segment.expand resolve (.marker (marker id)) = p.contents := by
      rw [Segment.expand, hliteral]
      have := h 0 p rfl
      rw [Nat.add_zero] at this
      rw [this]
      rfl
    rw [segmentsFrom, List.flatMap_append, expand_escapeSegments hescape, List.flatMap_cons,
      List.flatMap_cons, List.flatMap_cons, hp, hrest]
    simp [Segment.expand, Passage.text]

end Segments

/-! ## The deflated query -/

variable (query : Text)

theorem text_segmentsOf : (segmentsOf query).flatMap Segment.text = (ofQuery query).query :=
  text_segmentsFrom _ _ _

theorem readable_ofQuery : Readable (segmentsOf query) :=
  readable_segmentsFrom fun _ hp => Passage.isQuote_of_mem_split hp

/-- A deflated query holds the markers that were put in, and no others. -/
theorem segments_ofQuery : segments (ofQuery query).query = segmentsOf query := by
  rw [← text_segmentsOf, segments_flatMap (readable_ofQuery query)]

variable {query} in
theorem isStored_of_mem_segmentsOf {m : Marker} (h : .marker m ∈ segmentsOf query) : m.IsStored :=
  isStored_of_mem_segmentsFrom h

theorem expand_segmentsOf {resolve : Marker → Option Text}
    (hescape : resolve ⟨.escape, []⟩ = some Marker.opening)
    (hliteral : ∀ id, resolve (marker id) = (ofQuery query).literal? id) :
    (segmentsOf query).flatMap (Segment.expand resolve) = query := by
  have h : ∀ i p, (Passage.split query).1[i]? = some p →
      (ofQuery query).literal? (1 + i) = some p.contents := by
    intro i p hp
    rw [Nat.add_comm]
    show ((Passage.split query).1.map (·.contents))[i]? = some p.contents
    rw [List.getElem?_map, hp]
    rfl
  exact (expand_segmentsFrom hescape hliteral h).trans (Passage.text_split query)

theorem resolve_marker (literal : Nat → Option Text) (id : Nat) :
    resolve literal (marker id) = literal id := by
  show (Numeral.read (Numeral.write id)).bind literal = literal id
  rw [Numeral.read_write]
  rfl

/-- Inflating undoes deflating. -/
theorem toQuery_ofQuery : (ofQuery query).toQuery = query := by
  unfold toQuery inflate expand
  rw [segments_ofQuery]
  exact expand_segmentsOf query rfl (resolve_marker _)

end Deflated

end TypedMirror
