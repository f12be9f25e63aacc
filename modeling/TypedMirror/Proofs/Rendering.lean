import TypedMirror.Proofs.Coverage
import TypedMirror.Proofs.Fitting

/-!
# Rendering a query

A query that has been read is rendered from its template.  Between the names of its tables nothing
changes, unless a predicate column holds closing brackets, and then the query is not even rendered
with its own names.

* `exists_patches_of_parse` — the template of a query, patch by patch;
* `render_eq_weave_iff` — when a rendered query differs in the names of its tables only;
* `rendered_column_brackets` — a query that does not come back.
-/

namespace TypedMirror

/-! ## Names between gaps -/

namespace Text

/-- Each name behind its gap, and the text after the last of them. -/
def weave (gaps names : List Text) (last : Text) : Text :=
  (gaps.zipWith (· ++ ·) names).flatten ++ last

/-- The positions of the names, the first gap starting at `start`. -/
def positions (start : Nat) : List Text → List Text → List Nat
  | gap :: gaps, name :: names =>
    (start + gap.length) :: positions (start + gap.length + name.length) gaps names
  | _, _ => []

theorem weave_map {α : Type} (xs : List α) (gap name : α → Text) (last : Text) :
    weave (xs.map gap) (xs.map name) last = xs.flatMap (fun x => gap x ++ name x) ++ last := by
  unfold weave
  rw [List.zipWith_map, List.zipWith_self, List.flatMap_def]

end Text

namespace Patch

open Query (Edit)

variable {ps : List Patch} {start : Nat}

theorem marker_edits (start : Nat) (ps : List Patch) :
    (edits start ps).map (·.marker) = ps.map (·.marker) := by
  induction ps generalizing start with
  | nil => rfl
  | cons p ps ih => rw [edits, List.map_cons, List.map_cons, ih]

theorem start_edits (start : Nat) (ps : List Patch) : (edits start ps).map (·.start) =
    Text.positions start (ps.map (·.gap.flatMap Segment.text)) (ps.map (·.marker.name)) := by
  induction ps generalizing start with
  | nil => rfl
  | cons p ps ih => rw [edits, List.map_cons, List.map_cons, List.map_cons, Text.positions, ih]

theorem edits_append (start : Nat) (ps qs : List Patch) :
    ∃ stop, edits start (ps ++ qs) = edits start ps ++ edits stop qs := by
  induction ps generalizing start with
  | nil => exact ⟨start, rfl⟩
  | cons p ps ih =>
    obtain ⟨stop, h⟩ := ih (start + (p.gap.flatMap Segment.text).length + p.marker.name.length)
    exact ⟨stop, by rw [List.cons_append, edits, h, edits]; rfl⟩

end Patch

namespace Query

open Template Patch

variable {query : Text} {q : Query}

/-- No column of a predicate holds closing brackets in the deflated query. -/
def PlainColumns (q : Query) : Prop :=
  ∀ x ∈ q.predicates, Text.has x.column.raw Marker.closing = false

instance (q : Query) : Decidable q.PlainColumns :=
  inferInstanceAs (Decidable (∀ x ∈ q.predicates, Text.has x.column.raw Marker.closing = false))

/-! ## The template of a query -/

/-- The patches of a query: those of its tables, then those of its predicate columns. -/
structure Layout (query : Text) (q : Query) (ts cs : List Patch) (last : List Segment) : Prop where
  segments : Deflated.segmentsOf query = source (ts ++ cs) last
  sound : ∀ p ∈ ts ++ cs, p.Sound
  tables : Patch.edits 0 ts = q.tables.map tableEdit
  columns : cs.map (·.marker) = q.predicates.map fun x => column x.column.raw
  template : q.template = splice 0 (Deflated.ofQuery query).query (Patch.edits 0 (ts ++ cs))
  literals : q.literals = (Deflated.ofQuery query).literals

theorem exists_marks_of_parse (h : Query.parse query = .ok q) (hop : q.operation ≠ none) :
    Grammar.Marks (Deflated.ofQuery query).query (Token.read (Deflated.ofQuery query).query)
        (q.tables.map tableEdit ++ q.predicates.map (columnEdit ·.column)) ∧
      q.template = splice 0 (Deflated.ofQuery query).query
        (q.tables.map tableEdit ++ q.predicates.map (columnEdit ·.column)) ∧
      q.literals = (Deflated.ofQuery query).literals := by
  rcases Query.parse_eq_ok h with ⟨-, rfl⟩ | ⟨op, rest, r, hoperation, hr, rfl⟩
  · exact absurd rfl hop
  · obtain ⟨p, htokens, hp⟩ := Grammar.exists_of_operation? hoperation
    rw [htokens]
    exact ⟨Grammar.marks_readStatement hr hp, rfl, rfl⟩

theorem exists_patches_of_parse (h : Query.parse query = .ok q) (hop : q.operation ≠ none) :
    ∃ ts cs last, Layout query q ts cs last := by
  obtain ⟨hmarks, htemplate, hliterals⟩ := exists_marks_of_parse h hop
  have hfitted := Grammar.fitted_of_marks [] hmarks rfl (Token.tiles_read _)
  obtain ⟨ps, last, hsegments, hedits, hsound⟩ := exists_patches hfitted
    (fun m hm => Deflated.isStored_of_mem_segmentsOf hm) (Deflated.text_segmentsOf query)
  rw [hedits] at htemplate
  have hmarkers := congrArg (List.map (·.marker)) hedits
  rw [List.length_nil, marker_edits, List.map_append, eq_comm] at hmarkers
  obtain ⟨ts, cs, rfl, htables, hcolumns⟩ := List.map_eq_append_iff.1 hmarkers
  refine ⟨ts, cs, last, hsegments, hsound, ?_, ?_, htemplate, hliterals⟩
  · obtain ⟨stop, happend⟩ := edits_append 0 ts cs
    rw [List.length_nil, happend] at hedits
    refine (List.append_inj_left hedits ?_).symm
    have hlength := congrArg List.length htables
    have hedits' := congrArg List.length (marker_edits 0 ts)
    simp only [List.length_map] at hlength hedits' ⊢
    omega
  · rw [hcolumns, List.map_map]
    rfl

namespace Layout

variable {ts cs : List Patch} {last : List Segment} (hl : Layout query q ts cs last)

include hl

theorem readable : Readable (source (ts ++ cs) last) :=
  hl.segments ▸ Deflated.readable_ofQuery query

theorem text : (Deflated.ofQuery query).query = (source (ts ++ cs) last).flatMap Segment.text := by
  rw [← hl.segments, Deflated.text_segmentsOf]

theorem isStored {m : Marker} (hm : .marker m ∈ source (ts ++ cs) last) : m.IsStored :=
  Deflated.isStored_of_mem_segmentsOf (hl.segments ▸ hm)

omit hl in
theorem source_eq : source (ts ++ cs) last = ts.flatMap (fun p => p.gap ++ p.covered)
    ++ source cs last := by
  unfold source
  rw [List.flatMap_append, List.append_assoc]

theorem map_marker : ts.map (·.marker) = q.tables.map fun x => ⟨.table, x.name⟩ := by
  rw [← marker_edits 0, hl.tables, List.map_map]
  rfl

theorem marker_of_mem {p : Patch} (hp : p ∈ ts) : p.marker = ⟨.table, p.marker.name⟩ := by
  have hmem : p.marker ∈ ts.map (·.marker) := List.mem_map_of_mem hp
  rw [hl.map_marker] at hmem
  obtain ⟨x, -, hx⟩ := List.mem_map.1 hmem
  rw [← hx]

theorem marker_of_mem_columns {p : Patch} (hp : p ∈ cs) : p.marker.kind = .column := by
  have hmem : p.marker ∈ cs.map (·.marker) := List.mem_map_of_mem hp
  rw [hl.columns] at hmem
  obtain ⟨x, -, hx⟩ := List.mem_map.1 hmem
  rw [← hx]
  rfl

theorem map_name : ts.map (·.marker.name) = q.tables.map (·.name) := by
  have := congrArg (List.map Marker.name) hl.map_marker
  rwa [List.map_map, List.map_map] at this

theorem map_renamed (f : Text → Text) :
    q.tables.map (f ·.name) = ts.map fun p => f p.marker.name := by
  have := congrArg (List.map f) hl.map_name
  rw [List.map_map, List.map_map] at this
  exact this.symm

/-- The name of a table is all that its patch covers. -/
theorem covered_eq {p : Patch} (hp : p ∈ ts) :
    Text.has p.marker.name Marker.closing = false ∧ p.covered = p.marker.name.map .char := by
  have hsound := hl.sound p (List.mem_append_left cs hp)
  have hnone : Text.has p.marker.name Marker.closing = false := by
    rcases hsound.kind with hkind | hnone
    · rw [hl.marker_of_mem hp] at hkind
      cases hkind
    · exact hnone
  exact ⟨hnone, eq_map_char hsound.name hnone⟩

/-! ## Expanding the template -/

/-- The markers of the deflated query stand for what inflating puts in their place. -/
theorem markerText_of_isStored {m : Marker} (hm : m.IsStored) (f : Text → Text) :
    q.markerText f m = Deflated.resolve (Deflated.ofQuery query).literal? m := by
  rcases hm with rfl | ⟨id, rfl⟩
  · rfl
  · have hliteral : q.literal? = (Deflated.ofQuery query).literal? := by
      funext id
      cases id with
      | zero => rfl
      | succ id =>
        show q.literals[id]? = (Deflated.ofQuery query).literals[id]?
        rw [hl.literals]
    show Deflated.literalNamed q.literal? _ = Deflated.literalNamed _ _
    rw [hliteral]

theorem expand_eq_inflate {ss : List Segment} (hread : Readable ss)
    (hmem : ∀ s ∈ ss, s ∈ source (ts ++ cs) last) (f : Text → Text) :
    ss.flatMap (Segment.expand (q.markerText f)) =
      Deflated.inflate (Deflated.ofQuery query).literal? (ss.flatMap Segment.text) := by
  unfold Deflated.inflate Template.expand
  rw [segments_flatMap hread]
  refine List.flatMap_congr ?_
  intro s hs
  cases s with
  | char c => rfl
  | marker m =>
    have hm := hl.isStored (hmem _ hs)
    rw [Segment.expand, Segment.expand, hl.markerText_of_isStored hm]

theorem expand_gap {p : Patch} (hp : p ∈ ts ++ cs) (f : Text → Text) :
    p.gap.flatMap (Segment.expand (q.markerText f)) =
      Deflated.inflate (Deflated.ofQuery query).literal? (p.gap.flatMap Segment.text) := by
  refine hl.expand_eq_inflate (readable_of_mem hl.readable hp).1 ?_ f
  intro s hs
  exact List.mem_append_left _ (List.mem_flatMap.2 ⟨p, hp, List.mem_append_left _ hs⟩)

/-- A table's name is put back by any reading, and can be replaced. -/
theorem expand_table {p : Patch} (hp : p ∈ ts) (f : Text → Text) :
    p.covered.flatMap (Segment.expand (q.markerText f)) = p.marker.name ∧
      p.reading.flatMap (Segment.expand (q.markerText f)) = f p.marker.name := by
  have hmem : p ∈ ts ++ cs := List.mem_append_left cs hp
  obtain ⟨hnone, hcovered⟩ := hl.covered_eq hp
  constructor
  · rw [hcovered, expand_map_char]
  · rw [reading_of_noClosing (hl.sound p hmem) (readable_of_mem hl.readable hmem).2 hnone,
      List.flatMap_singleton, hl.marker_of_mem hp]
    rfl

theorem deflated_eq_weave : (Deflated.ofQuery query).query =
    Text.weave (ts.map fun p => p.gap.flatMap Segment.text) (q.tables.map (·.name))
      ((source cs last).flatMap Segment.text) := by
  rw [← hl.map_name, Text.weave_map, hl.text, source_eq, List.flatMap_append, List.flatMap_assoc]
  refine congrArg (· ++ _) (List.flatMap_congr ?_)
  intro p hp
  rw [List.flatMap_append, (hl.sound p (List.mem_append_left cs hp)).name]

theorem inflate_rest (f : Text → Text) :
    Deflated.inflate (Deflated.ofQuery query).literal? ((source cs last).flatMap Segment.text) =
      cs.flatMap (fun p => p.gap.flatMap (Segment.expand (q.markerText f))
          ++ p.covered.flatMap (Segment.expand (q.markerText f)))
        ++ last.flatMap (Segment.expand (q.markerText f)) := by
  have hread := hl.readable
  rw [source_eq] at hread
  have hmem : ∀ s ∈ source cs last, s ∈ source (ts ++ cs) last := by
    intro s hs
    rw [source_eq]
    exact List.mem_append_right _ hs
  rw [← hl.expand_eq_inflate hread.right hmem f, source, List.flatMap_append, List.flatMap_assoc]
  simp only [List.flatMap_append]

/-- The query in terms of its tables. -/
theorem query_eq_weave : query = Text.weave
    (ts.map fun p => Deflated.inflate (Deflated.ofQuery query).literal?
      (p.gap.flatMap Segment.text)) (q.tables.map (·.name))
    (Deflated.inflate (Deflated.ofQuery query).literal?
      ((source cs last).flatMap Segment.text)) := by
  have hquery : (source (ts ++ cs) last).flatMap (Segment.expand (q.markerText id)) = query := by
    rw [← hl.segments]
    refine Deflated.expand_segmentsOf query rfl fun n => ?_
    rw [hl.markerText_of_isStored (.inr ⟨n, rfl⟩), Deflated.resolve_marker]
  rw [source, List.flatMap_append, List.flatMap_append, List.flatMap_append, List.append_assoc,
    List.flatMap_assoc, List.flatMap_assoc] at hquery
  rw [← hl.map_name, Text.weave_map, hl.inflate_rest id]
  simp only [List.flatMap_append] at hquery
  refine hquery.symm.trans (congrArg (· ++ _) (List.flatMap_congr ?_))
  intro p hp
  rw [hl.expand_gap (List.mem_append_left cs hp), (hl.expand_table hp id).1]

theorem render_eq_weave (f : Text → Text) : q.render f = Text.weave
    (ts.map fun p => Deflated.inflate (Deflated.ofQuery query).literal?
      (p.gap.flatMap Segment.text)) (q.tables.map fun x => f x.name)
    (cs.flatMap (fun p => p.gap.flatMap (Segment.expand (q.markerText f))
        ++ p.reading.flatMap (Segment.expand (q.markerText f)))
      ++ last.flatMap (Segment.expand (q.markerText f))) := by
  unfold render Template.expand
  rw [hl.template, hl.text, splice_edits hl.sound, segments_patched hl.readable hl.sound,
    hl.map_renamed f, Text.weave_map, List.flatMap_append, List.flatMap_append,
    List.flatMap_append, List.append_assoc, List.flatMap_assoc, List.flatMap_assoc]
  simp only [List.flatMap_append]
  refine congrArg (· ++ _) (List.flatMap_congr ?_)
  intro p hp
  rw [hl.expand_gap (List.mem_append_left cs hp), (hl.expand_table hp f).2]

/-- What is rendered of the columns is what was there just if no name of them holds closing
brackets. -/
theorem render_iff (f : Text → Text) : q.render f = Text.weave
      (ts.map fun p => Deflated.inflate (Deflated.ofQuery query).literal?
        (p.gap.flatMap Segment.text)) (q.tables.map fun x => f x.name)
      (Deflated.inflate (Deflated.ofQuery query).literal?
        ((source cs last).flatMap Segment.text)) ↔ q.PlainColumns := by
  have hcolumn : ∀ p ∈ cs, (p.covered.flatMap (Segment.expand (q.markerText f))).length ≤
        (p.reading.flatMap (Segment.expand (q.markerText f))).length ∧
      (p.reading.flatMap (Segment.expand (q.markerText f)) =
          p.covered.flatMap (Segment.expand (q.markerText f)) ↔
        Text.has p.marker.name Marker.closing = false) := by
    intro p hp
    have hmem : p ∈ ts ++ cs := List.mem_append_right ts hp
    exact length_le_reading (fun _ => rfl) (hl.sound p hmem) (readable_of_mem hl.readable hmem).2
      (hl.marker_of_mem_columns hp)
  rw [hl.render_eq_weave f, hl.inflate_rest f, Text.weave, Text.weave, List.append_cancel_left_eq,
    List.append_cancel_right_eq, flatMap_eq_iff]
  · have hnames : cs.map (·.marker.name) = q.predicates.map (·.column.raw) := by
      have := congrArg (List.map Marker.name) hl.columns
      rwa [List.map_map, List.map_map] at this
    constructor
    · intro h x hx
      have hraw : x.column.raw ∈ cs.map (·.marker.name) := by
        rw [hnames]
        exact List.mem_map_of_mem hx
      obtain ⟨p, hp, hpx⟩ := List.mem_map.1 hraw
      rw [← hpx]
      exact (hcolumn p hp).2.1 (List.append_cancel_left (h p hp))
    · intro h p hp
      have hname : p.marker.name ∈ q.predicates.map (·.column.raw) := by
        rw [← hnames]
        exact List.mem_map_of_mem hp
      obtain ⟨x, hx, hpx⟩ := List.mem_map.1 hname
      rw [(hcolumn p hp).2.2 (hpx ▸ h x hx)]
  · intro p hp
    have := (hcolumn p hp).1
    rw [List.length_append, List.length_append]
    omega

end Layout

/-! ## Names in place of names -/

/-- The name of a table is a token of the deflated query, or stands between the backticks of one. -/
theorem exists_token_of_mem (h : Query.parse query = .ok q) (hop : q.operation ≠ none) {x : TableRef}
    (hx : x ∈ q.tables) : ∃ t ∈ Token.read (Deflated.ofQuery query).query,
      Grammar.isIdentifier t = true ∧ t.name = x.name ∧ Grammar.namePosition t = x.position := by
  obtain ⟨hmarks, -, -⟩ := exists_marks_of_parse h hop
  have hmem : tableEdit x ∈ q.tables.map tableEdit ++ q.predicates.map (columnEdit ·.column) :=
    List.mem_append_left _ (List.mem_map_of_mem hx)
  obtain ⟨us, hcovers, hus⟩ := hmarks.exists_covers hmem
  generalize hedit : tableEdit x = e at hcovers
  cases hcovers with
  | @table t ht =>
    obtain ⟨hposition, -, hmarker⟩ := Edit.mk.inj hedit
    exact ⟨t, hus t List.mem_cons_self, ht, (Marker.mk.inj hmarker).2.symm, hposition.symm⟩
  | column => cases (Marker.mk.inj (Edit.mk.inj hedit).2.2).1
  | qualified => cases (Marker.mk.inj (Edit.mk.inj hedit).2.2).1

/-- A query of a known operation is made of the names of its tables and of gaps between them.
Rendering it with other names replaces the names and keeps the gaps, and rendering it with its own
gives the query itself, exactly if no column of a predicate holds closing brackets in the deflated
query.  The same goes for a query that is sent to mirrors. -/
theorem render_eq_weave_iff (h : Query.parse query = .ok q) (hop : q.operation ≠ none) :
    ∃ gaps rest, gaps.length = q.tables.length ∧
      (Deflated.ofQuery query).query = Text.weave gaps (q.tables.map (·.name)) rest ∧
      q.tables.map (·.position) = Text.positions 0 gaps (q.tables.map (·.name)) ∧
      (∀ x ∈ q.tables, ∃ t ∈ Token.read (Deflated.ofQuery query).query,
        Grammar.isIdentifier t = true ∧ t.name = x.name ∧ Grammar.namePosition t = x.position) ∧
      let inflate := Deflated.inflate (Deflated.ofQuery query).literal?
      query = Text.weave (gaps.map inflate) (q.tables.map (·.name)) (inflate rest) ∧
      (∀ f, q.render f = Text.weave (gaps.map inflate) (q.tables.map (f ·.name)) (inflate rest) ↔
        q.PlainColumns) ∧
      (q.inflate = query ↔ q.PlainColumns) ∧
      ∀ mirrors, (Routing.decision mirrors query).routes ≠ [] →
        ((Routing.decision mirrors query).redirected = Text.weave (gaps.map inflate)
            (q.tables.map (Routing.redirect (Routing.decision mirrors query).routes ·.name))
            (inflate rest) ↔ q.PlainColumns) := by
  obtain ⟨ts, cs, last, hl⟩ := exists_patches_of_parse h hop
  refine ⟨ts.map fun p => p.gap.flatMap Segment.text, (source cs last).flatMap Segment.text, ?_,
    hl.deflated_eq_weave, ?_, fun x hx => exists_token_of_mem h hop hx, ?_⟩
  · have := congrArg List.length hl.map_name
    simpa using this
  · have := congrArg (List.map (·.start)) hl.tables
    rw [start_edits, hl.map_name, List.map_map] at this
    exact this.symm
  intro inflate
  have hmap : (ts.map fun p => p.gap.flatMap Segment.text).map inflate =
      ts.map fun p => inflate (p.gap.flatMap Segment.text) := by
    rw [List.map_map]
    rfl
  rw [hmap]
  have hquery := hl.query_eq_weave
  refine ⟨hquery, hl.render_iff, ?_, ?_⟩
  · rw [← hl.render_iff id]
    conv_lhs => rw [hquery]
    rfl
  · intro mirrors hroutes
    obtain ⟨route, hroute⟩ := List.exists_mem_of_ne_nil _ hroutes
    obtain ⟨q', hparse, -, hroutes', hredirected⟩ := Routing.parse_of_route hroute
    obtain rfl : q = q' := Except.ok.inj (h.symm.trans hparse)
    rw [hredirected, hroutes']
    exact hl.render_iff _

/-- The second part of a qualified column may hold brackets, and they come back in another place. -/
theorem rendered_column_brackets :
    let query := "SELECT * FROM t WHERE t.`a]]b` = 1".toList
    ∃ q, Query.parse query = .ok q ∧ q.operation = some .select ∧ q.fullyParsed = true ∧
      q.inflate = "SELECT * FROM t WHERE t.`ab`]] = 1".toList ∧ q.inflate ≠ query := by
  intro query
  let c : ColumnRef := ⟨some "t".toList, "a]]b".toList, "t.`a]]b`".toList, 22⟩
  let template := "SELECT * FROM [[table:t]] WHERE [[column:t.`a]]b`]] = 1".toList
  let q : Query := ⟨some .select, [⟨"t".toList, none, 14⟩], [], [⟨c, .eq, .other "1".toList⟩], false,
    [], template, true⟩
  have hparse : Query.parse query = .ok q := eq_ok_of_toOption (by decide +kernel)
  have hinflate : q.inflate = "SELECT * FROM t WHERE t.`ab`]] = 1".toList := by decide +kernel
  refine ⟨q, hparse, rfl, rfl, hinflate, ?_⟩
  rw [hinflate]
  decide

/-- A query with brackets in a literal and a single one in a column. -/
theorem render_eq_weave_sample :
    let query := "SELECT * FROM t WHERE t.`a]b` = ']]'".toList
    ∃ q, Query.parse query = .ok q ∧ q.operation ≠ none ∧ q.inflate = query ∧
      ∃ before after, ∀ f, q.render f = before ++ f "t".toList ++ after := by
  intro query
  let c : ColumnRef := ⟨some "t".toList, "a]b".toList, "t.`a]b`".toList, 22⟩
  let template := "SELECT * FROM [[table:t]] WHERE [[column:t.`a]b`]] = '[[literal:1]]'".toList
  let q : Query := ⟨some .select, [⟨"t".toList, none, 14⟩], [], [⟨c, .eq, .literal 1⟩], false,
    ["]]".toList], template, true⟩
  have hparse : Query.parse query = .ok q := eq_ok_of_toOption (by decide +kernel)
  have hop : q.operation ≠ none := by decide
  have hplain : q.PlainColumns := by decide
  obtain ⟨gaps, rest, hlength, -, -, -, -, hrender, hinflate, -⟩ := render_eq_weave_iff hparse hop
  obtain ⟨gap, rfl⟩ := List.length_eq_one_iff.1 hlength
  refine ⟨q, hparse, hop, hinflate.2 hplain,
    Deflated.inflate (Deflated.ofQuery query).literal? gap,
    Deflated.inflate (Deflated.ofQuery query).literal? rest, ?_⟩
  intro f
  rw [(hrender f).2 hplain]
  exact congrArg (· ++ _) (List.append_nil _)

end Query

end TypedMirror
