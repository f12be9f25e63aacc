import Mathlib.Data.List.Nodup
import TypedMirror.Proofs.Passages
import TypedMirror.Proofs.Rendering

/-!
# Literals and their markers

A deflated query is the query with a marker between each two quotes that enclose a literal.  The
markers carry the numbers from one on, in order, and what else the query holds is never one of them.

* `Template.exists_marker_of_opening` — brackets that open a marker's text open a marker;
* `Deflated.textFrom_eq_weave` — the markers and what stands around them;
* `Deflated.ofQuery_encloses_literals` — each literal has its marker, once.
-/

namespace TypedMirror

namespace Marker

variable {m : Marker}

/-- What follows the two opening brackets of a marker that deflating writes. -/
theorem IsStored.exists_body (h : m.IsStored) :
    ∃ body, m.write = '[' :: '[' :: body ∧ body ≠ [] ∧ '[' ∉ body := by
  have hplain : '[' ∉ m.name := by
    rcases h with rfl | ⟨id, rfl⟩
    · exact List.not_mem_nil
    · intro hmem
      have := Numeral.isDigit_of_mem_write hmem
      exact absurd this (by decide)
  have hword : '[' ∉ m.kind.word := by cases m.kind <;> decide
  refine ⟨m.kind.word ++ ':' :: m.name ++ closing, by simp [write, opening], by simp [closing], ?_⟩
  simp [closing, hplain, hword]

theorem IsStored.plain (h : m.IsStored) : m.Plain := by
  rcases h with rfl | ⟨id, rfl⟩
  · exact Template.plain_escape
  · exact Deflated.plain_marker id

/-- No two markers are written alike, whatever follows them. -/
theorem IsStored.eq_of_append {n : Marker} {a b : Text} (hm : m.IsStored) (hn : n.IsStored)
    (h : m.write ++ a = n.write ++ b) : m = n := by
  have hread := read?_write hm.plain a
  rw [h, read?_write hn.plain b] at hread
  cases hread
  rfl

end Marker

namespace Template

variable {ss : List Segment} {a r : Text} {c : Char}

/-- Two opening brackets, and no third one behind them, are those of a marker. -/
theorem exists_marker_of_opening (hread : Readable ss)
    (hstored : ∀ m, .marker m ∈ ss → m.IsStored) (hc : c ≠ '[')
    (h : ss.flatMap Segment.text = a ++ '[' :: '[' :: c :: r) :
    ∃ us m vs, ss = us ++ .marker m :: vs ∧ us.flatMap Segment.text = a := by
  induction ss generalizing a with
  | nil => simp at h
  | cons s ss ih =>
    have hstored' : ∀ m, .marker m ∈ ss → m.IsStored := fun m hm =>
      hstored m (List.mem_cons_of_mem s hm)
    rw [List.flatMap_cons] at h
    cases s with
    | char d =>
      cases a with
      | cons e a =>
        obtain ⟨rfl, hrest⟩ := List.cons.inj h
        obtain ⟨us, m, vs, rfl, rfl⟩ := ih hread.2 hstored' hrest
        exact ⟨.char d :: us, m, vs, rfl, rfl⟩
      | nil =>
        -- the first bracket is a character, so what follows starts with no bracket or a marker
        obtain ⟨rfl, hrest⟩ := List.cons.inj h
        exfalso
        cases ss with
        | nil => cases hrest
        | cons s ss =>
          rw [List.flatMap_cons] at hrest
          cases s with
          | char d =>
            obtain ⟨rfl, -⟩ := List.cons.inj hrest
            exact hread.1 rfl rfl
          | marker m =>
            obtain ⟨body, hbody, -, -⟩ := (hstored' m List.mem_cons_self).exists_body
            rw [Segment.text, hbody] at hrest
            exact hc (List.cons.inj (List.cons.inj hrest).2).1.symm
    | marker m =>
      obtain ⟨body, hbody, hne, hnot⟩ := (hstored m List.mem_cons_self).exists_body
      rcases List.append_eq_append_iff.1 h with ⟨x, rfl, hrest⟩ | ⟨x, hx, hrest⟩
      · obtain ⟨us, n, vs, rfl, rfl⟩ := ih hread.2 hstored' hrest
        exact ⟨.marker m :: us, n, vs, rfl, rfl⟩
      · rw [Segment.text, hbody] at hx
        rcases a with _ | ⟨d, _ | ⟨e, a⟩⟩
        · exact ⟨[], m, ss, rfl, rfl⟩
        · -- the second bracket would stand behind those of the marker
          exfalso
          obtain ⟨-, rfl⟩ := List.cons.inj hx
          obtain ⟨b, body, rfl⟩ := List.exists_cons_of_ne_nil hne
          obtain ⟨rfl, -⟩ := List.cons.inj (List.cons.inj hrest).2
          exact hnot List.mem_cons_self
        · cases x with
          | nil =>
            rw [List.append_nil] at hx
            obtain ⟨us, n, vs, rfl, hus⟩ := ih (a := []) hread.2 hstored' hrest.symm
            refine ⟨.marker m :: us, n, vs, rfl, ?_⟩
            rw [List.flatMap_cons, hus, Segment.text, hbody, hx, List.append_nil]
          | cons f x =>
            exfalso
            obtain ⟨rfl, -⟩ := List.cons.inj hrest
            obtain ⟨-, rfl⟩ := List.cons.inj (List.cons.inj hx).2
            exact hnot (by simp)

end Template

/-- The marker of a segment that is one. -/
def Segment.marker? : Segment → Option Marker
  | .char _ => none
  | .marker m => some m

theorem Template.markers_eq_filterMap (t : Text) :
    markers t = (segments t).filterMap Segment.marker? := by
  refine List.filterMap_congr fun s _ => ?_
  cases s <;> rfl

/-- The text between two quotes. -/
def Passage.enclose (quote : Char) (contents : Text) : Text := quote :: contents ++ [quote]

namespace Deflated

open Template

variable {id : Nat} {ps : List Passage} {tail : Text}

theorem flatMap_text_eq_weave (ps : List Passage) (tail : Text) : ps.flatMap Passage.text ++ tail =
    Text.weave (ps.map (·.before))
      (List.zipWith Passage.enclose (ps.map (·.quote)) (ps.map (·.contents))) tail := by
  have hnames : List.zipWith Passage.enclose (ps.map (·.quote)) (ps.map (·.contents)) =
      ps.map fun p => Passage.enclose p.quote p.contents := by
    rw [List.zipWith_map, List.zipWith_self]
  rw [hnames, Text.weave_map]
  refine congrArg (· ++ tail) (List.flatMap_congr fun p _ => ?_)
  simp [Passage.text, Passage.enclose]

theorem textFrom_eq_weave (id : Nat) (ps : List Passage) (tail : Text) :
    textFrom id ps tail = Text.weave (ps.map fun p => escape p.before)
      (List.zipWith Passage.enclose (ps.map (·.quote))
        ((List.range' id ps.length).map fun i => (marker i).write)) (escape tail) := by
  induction ps generalizing id with
  | nil => rfl
  | cons p ps ih =>
    rw [textFrom, ih]
    simp [Text.weave, Passage.enclose, List.range'_succ]

/-- The markers of the literals, among those of the brackets. -/
theorem filter_segmentsFrom (id : Nat) (ps : List Passage) (tail : Text) :
    ((segmentsFrom id ps tail).filterMap Segment.marker?).filter (·.kind ≠ .escape) =
      (List.range' id ps.length).map marker := by
  have hescape : ∀ t : Text,
      ((escapeSegments t).filterMap Segment.marker?).filter (·.kind ≠ .escape) = [] := by
    intro t
    rw [List.filter_eq_nil_iff]
    intro m hm
    obtain ⟨s, hs, heq⟩ := List.mem_filterMap.1 hm
    cases s with
    | char c => cases heq
    | marker n =>
      cases heq
      rw [isStored_of_mem_escapeSegments hs]
      decide
  induction ps generalizing id with
  | nil => exact hescape tail
  | cons p ps ih =>
    rw [segmentsFrom, List.filterMap_append, List.filter_append, hescape, List.nil_append,
      List.length_cons, List.range'_succ, List.map_cons, ← ih (id + 1)]
    simp [List.filterMap_cons, Segment.marker?, marker]

/-! ## The markers of a deflated query -/

variable (query : Text)

theorem filter_segmentsOf :
    ((segmentsOf query).filterMap Segment.marker?).filter (·.kind ≠ .escape) =
      (List.range' 1 (ofQuery query).literals.length).map marker := by
  refine (filter_segmentsFrom 1 _ _).trans ?_
  simp [ofQuery]

theorem markers_ofQuery : (markers (ofQuery query).query).filter (·.kind ≠ .escape) =
    (List.range' 1 (ofQuery query).literals.length).map marker := by
  rw [markers_eq_filterMap, segments_ofQuery, filter_segmentsOf]

theorem nodup_markers (n : Nat) : ((List.range' 1 n).map marker).Nodup := by
  refine List.Nodup.map ?_ List.nodup_range'
  intro i j h
  have hread := congrArg (fun m => Numeral.read m.name) h
  simpa [marker, Numeral.read_write] using hread

variable {query} {before after : Text}

/-- The text of a literal's marker is that marker. -/
theorem exists_segments_of_marker
    (h : (ofQuery query).query = before ++ (marker id).write ++ after) :
    ∃ us vs, segmentsOf query = us ++ .marker (marker id) :: vs ∧
      us.flatMap Segment.text = before := by
  have htext : (segmentsOf query).flatMap Segment.text = before ++ ((marker id).write ++ after) := by
    rw [text_segmentsOf, h, List.append_assoc]
  obtain ⟨us, m, vs, hss, hus⟩ := exists_marker_of_opening (readable_ofQuery query)
    (fun m hm => isStored_of_mem_segmentsOf hm) (by decide : 'l' ≠ '[') htext
  refine ⟨us, vs, ?_, hus⟩
  rw [hss, List.flatMap_append, hus, List.append_cancel_left_eq, List.flatMap_cons] at htext
  have hmem : .marker m ∈ segmentsOf query := by
    rw [hss]
    simp
  rw [hss, (isStored_of_mem_segmentsOf hmem).eq_of_append (.inr ⟨id, rfl⟩) htext]

theorem mem_segmentsOf_iff : .marker (marker id) ∈ segmentsOf query ↔
    1 ≤ id ∧ id ≤ (ofQuery query).literals.length := by
  have hfilter := filter_segmentsOf query
  constructor
  · intro h
    have hmem : marker id ∈ ((segmentsOf query).filterMap Segment.marker?).filter
        (·.kind ≠ .escape) := by
      refine List.mem_filter.2 ⟨List.mem_filterMap.2 ⟨_, h, rfl⟩, ?_⟩
      simp [marker]
    rw [hfilter] at hmem
    obtain ⟨i, hi, heq⟩ := List.mem_map.1 hmem
    have hread := congrArg (fun m => Numeral.read m.name) heq
    simp [marker, Numeral.read_write] at hread
    rw [List.mem_range'_1] at hi
    omega
  · intro h
    have hmem : marker id ∈ (List.range' 1 (ofQuery query).literals.length).map marker :=
      List.mem_map_of_mem (List.mem_range'_1.2 (by omega))
    rw [← hfilter] at hmem
    obtain ⟨s, hs, heq⟩ := List.mem_filterMap.1 (List.mem_of_mem_filter hmem)
    cases s with
    | char c => cases heq
    | marker m =>
      cases heq
      exact hs

/-- There is one place for each number. -/
theorem eq_of_segmentsOf {us vs us' vs' : List Segment}
    (h : segmentsOf query = us ++ .marker (marker id) :: vs)
    (h' : segmentsOf query = us' ++ .marker (marker id) :: vs') : us = us' := by
  have hnodup := nodup_markers (ofQuery query).literals.length
  rw [← filter_segmentsOf, h, List.filterMap_append,
    List.filterMap_cons_some (show Segment.marker? _ = some (marker id) from rfl),
    List.filter_append, List.filter_cons_of_pos (by simp [marker]), List.nodup_middle,
    List.nodup_cons, List.mem_append, not_or] at hnodup
  have hnot : ∀ ws : List Segment,
      marker id ∉ (ws.filterMap Segment.marker?).filter (·.kind ≠ .escape) →
      .marker (marker id) ∉ ws := by
    intro ws hws hmem
    refine hws (List.mem_filter.2 ⟨List.mem_filterMap.2 ⟨_, hmem, rfl⟩, ?_⟩)
    simp [marker]
  exact ((List.append_cons_inj_of_notMem (hnot us hnodup.1.1) (hnot vs hnodup.1.2)).1
    (h.symm.trans h')).1

/-- A query is given back by its deflated form.  That has the numbers from one on for its literals;
it is the query with the two brackets `[[` escaped outside the literals and, between the quotes of
each literal, the marker of its number in place of its contents.  Reading its markers gives those of
the literals, in order, and of brackets, and the text of a literal's marker stands in it once. -/
theorem ofQuery_encloses_literals (query : Text) :
    let d := ofQuery query
    let n := d.literals.length
    d.toQuery = query ∧ (∀ id, (d.literal? id).isSome = true ↔ 1 ≤ id ∧ id ≤ n) ∧
    (∃ gaps quotes last, gaps.length = n ∧ quotes.length = n ∧
      (∀ quote ∈ quotes, Passage.isQuote quote = true) ∧
      query = Text.weave gaps (List.zipWith Passage.enclose quotes d.literals) last ∧
      d.query = Text.weave (gaps.map escape) (List.zipWith Passage.enclose quotes
        ((List.range' 1 n).map fun id => (marker id).write)) (escape last)) ∧
    (markers d.query).filter (·.kind ≠ .escape) = (List.range' 1 n).map marker ∧
    (∀ id, 1 ≤ id → id ≤ n → ∃! before, ∃ after, d.query = before ++ (marker id).write ++ after) ∧
    ∀ id before after, d.query = before ++ (marker id).write ++ after → 1 ≤ id ∧ id ≤ n := by
  intro d n
  refine ⟨toQuery_ofQuery query, ?_, ?_, markers_ofQuery query, ?_, ?_⟩
  · intro id
    cases id with
    | zero => simp [literal?]
    | succ id =>
      show (d.literals[id]?).isSome = true ↔ _
      rw [Option.isSome_iff_ne_none, ne_eq, List.getElem?_eq_none_iff]
      omega
  · have hn : n = (Passage.split query).1.length := List.length_map _
    refine ⟨(Passage.split query).1.map (·.before), (Passage.split query).1.map (·.quote),
      (Passage.split query).2, by rw [hn, List.length_map], by rw [hn, List.length_map], ?_, ?_, ?_⟩
    · intro quote hquote
      obtain ⟨p, hp, rfl⟩ := List.mem_map.1 hquote
      exact Passage.isQuote_of_mem_split hp
    · exact (Passage.text_split query).symm.trans (flatMap_text_eq_weave _ _)
    · rw [hn, List.map_map]
      exact textFrom_eq_weave 1 _ _
  · intro id h₁ h₂
    obtain ⟨us, vs, hss⟩ := List.append_of_mem (mem_segmentsOf_iff.2 ⟨h₁, h₂⟩)
    refine ⟨us.flatMap Segment.text, ⟨vs.flatMap Segment.text, ?_⟩, ?_⟩
    · show (ofQuery query).query = _
      rw [← text_segmentsOf, hss]
      simp [Segment.text]
    · rintro before ⟨after, h⟩
      obtain ⟨us', vs', hss', rfl⟩ := exists_segments_of_marker h
      rw [eq_of_segmentsOf hss hss']
  · intro id before after h
    obtain ⟨us, vs, hss, -⟩ := exists_segments_of_marker h
    exact mem_segmentsOf_iff.1 (by rw [hss]; simp)

/-- Brackets next to a literal, and a quote that is never closed. -/
example : (ofQuery "[[literal:1]] = [['a\\'b']] AND \"[[\" ' [[[".toList).query =
    "[[escape:]]literal:1]] = [[escape:]]'[[literal:1]]']] AND \"[[literal:2]]\" ' [[escape:]][".toList := by
  decide +kernel

end Deflated

end TypedMirror
