import TypedMirror.Proofs.Renaming.Lexing

/-!
# A rendered query is read again

A read that is rendered with other names for some of its tables is deflated to the text that it was
deflated to, with those names, and to the same literals; it is read as before, up to the names.

* `Layout.ofQuery_render` — the deflated form of a rendered query;
* `parse_render` — what is read of it.
-/

namespace TypedMirror.Query

open List (Forall₂)
open Template Patch

variable {query : Text} {q : Query} {f : Text → Text}

/-- Each table keeps its name, or has a word for a name and gets another. -/
def Renames (q : Query) (f : Text → Text) : Prop :=
  ∀ x ∈ q.tables, f x.name = x.name ∨ x.name.IsWord ∧ (f x.name).IsName

/-- The gaps of a query with the names of its tables between them, and the segments after the last. -/
def named (f : Text → Text) (ts : List Patch) (rest : List Segment) : List Segment :=
  ts.flatMap (fun p => p.gap ++ (f p.marker.name).map Segment.char) ++ rest

namespace Layout

variable {ts cs : List Patch} {last : List Segment} (hl : Layout query q ts cs last)

include hl

theorem source_eq_named : source (ts ++ cs) last = named id ts (source cs last) := by
  rw [source_eq]
  refine congrArg (· ++ _) (List.flatMap_congr ?_)
  intro p hp
  rw [(hl.covered_eq hp).2]
  rfl

theorem positions : Text.positions 0 (ts.map fun p => p.gap.flatMap Segment.text)
    (q.tables.map (·.name)) = q.tables.map (·.position) := by
  have := congrArg (List.map (·.start)) hl.tables
  rwa [start_edits, hl.map_name, List.map_map] at this

theorem deflates_named (hf : q.Renames f) :
    Deflated.Deflates (named f ts (source cs last)) (Deflated.ofQuery query).literals := by
  have h : Deflated.Deflates ([] ++ named id ts (source cs last))
      (Deflated.ofQuery query).literals := by
    rw [List.nil_append, ← hl.source_eq_named, ← hl.segments]
    exact Deflated.deflates_segmentsOf query
  refine h.replace_all (g := fun p => f p.marker.name) ?_
  intro p hp
  have hmem : p.marker.name ∈ ts.map (·.marker.name) := List.mem_map_of_mem hp
  rw [hl.map_name] at hmem
  obtain ⟨x, hx, hname⟩ := List.mem_map.1 hmem
  rw [← hname]
  exact (hf x hx).imp_right fun h => ⟨h.1, h.2.toIsWord⟩

theorem render_eq_named (hplain : q.PlainColumns) (f : Text → Text) :
    q.render f = (named f ts (source cs last)).flatMap (Segment.expand (q.markerText f)) := by
  rw [(hl.render_iff f).2 hplain, hl.map_renamed f, Text.weave_map, hl.inflate_rest f, named, source]
  simp only [List.flatMap_append, List.flatMap_assoc]
  refine congrArg (· ++ _) (List.flatMap_congr ?_)
  intro p hp
  rw [← hl.expand_gap (List.mem_append_left cs hp) f, expand_map_char]

/-- The rendered query is deflated to the same gaps and the same literals. -/
theorem ofQuery_render (hplain : q.PlainColumns) (hf : q.Renames f) :
    Deflated.ofQuery (q.render f) = ⟨Text.weave (ts.map fun p => p.gap.flatMap Segment.text)
      (q.tables.map (f ·.name)) ((source cs last).flatMap Segment.text),
      (Deflated.ofQuery query).literals⟩ := by
  rw [hl.render_eq_named hplain f, (hl.deflates_named hf).ofQuery_eq rfl ?_]
  · rw [hl.map_renamed f, Text.weave_map, named, List.flatMap_append, List.flatMap_assoc]
    simp only [List.flatMap_append, text_map_char]
  · intro id
    rw [hl.markerText_of_isStored (.inr ⟨id, rfl⟩), Deflated.resolve_marker]
    cases id with
    | zero => rfl
    | succ id => rfl

end Layout

theorem kind_ne_comment (h : Query.parse query = .ok q) (hparsed : q.fullyParsed = true) :
    ∀ t ∈ Token.read (Deflated.ofQuery query).query, t.kind ≠ .comment := by
  rcases Query.parse_eq_ok h with ⟨-, rfl⟩ | ⟨op, rest, r, -, -, rfl⟩
  · cases hparsed
  · rw [Bool.and_eq_true, Bool.not_eq_true', List.any_eq_false] at hparsed
    intro t ht hkind
    exact hparsed.2 t ht (decide_eq_true hkind)

/-- Queries with the same clauses, the tables of the second being named by `f`. -/
structure Like (f : Text → Text) (q q' : Query) : Prop where
  tables : Forall₂ (Grammar.Renamed f) q.tables q'.tables
  predicates : Forall₂ Grammar.Predicate.Like q.predicates q'.predicates
  usesOr : q.usesOr = q'.usesOr
  literals : q.literals = q'.literals

/-- A read that has been rendered with other names is read again, with the same clauses under those
names. -/
theorem parse_render (h : Query.parse query = .ok q) (hselect : q.operation = some .select)
    (hparsed : q.fullyParsed = true) (htables : q.tables ≠ []) (hplain : q.PlainColumns)
    (hf : q.Renames f) : ∃ q', Query.parse (q.render f) = .ok q' ∧ q.Like f q' := by
  obtain ⟨ts, cs, last, hl⟩ := exists_patches_of_parse h (by rw [hselect]; decide)
  obtain ⟨xs, rest, htokens, hnames, hagain⟩ := parse_again h hselect htables
  obtain ⟨hxsnames, hxspositions⟩ := Grammar.Phrase.map_of_names hnames
  have hread : Token.readFrom 0 (Deflated.ofQuery query).query =
      [] ++ (xs.flatMap Grammar.Phrase.tokens ++ rest) := htokens
  obtain ⟨gaps, after, hlength, -, hweave, hpositions, hrenamed⟩ :=
    Grammar.exists_weave hread (htokens ▸ kind_ne_comment h hparsed)
  rw [hxsnames] at hweave hpositions
  rw [hxspositions] at hpositions
  -- the gaps between the tokens are those between the patches
  obtain ⟨rfl, rfl⟩ : gaps = (ts.map fun p => p.gap.flatMap Segment.text) ∧
      after = (source cs last).flatMap Segment.text := by
    refine Text.eq_of_weave ?_ ?_ (hpositions.trans hl.positions.symm)
      (hweave.symm.trans hl.deflated_eq_weave)
    · rw [hlength, ← hxsnames, List.length_map]
    · rw [← hl.map_name, List.length_map, List.length_map]
  have hsuits : ∀ x ∈ xs, f x.name.name = x.name.name ∨ (f x.name.name).IsName := by
    intro x hx
    have hmem : x.name.name ∈ xs.map (·.name.name) := List.mem_map_of_mem hx
    rw [hxsnames] at hmem
    obtain ⟨t, ht, hname⟩ := List.mem_map.1 hmem
    rw [← hname]
    exact (hf t ht).imp_right And.right
  obtain ⟨us', ys, rest', hread', hus, hys, hrest⟩ := hrenamed f hsuits 0
  cases hus
  have hnames' : xs.map (f ·.name.name) = q.tables.map (f ·.name) := by
    have := congrArg (List.map f) hxsnames
    rwa [List.map_map, List.map_map] at this
  have htokens' : Token.read (Deflated.ofQuery (q.render f)).query =
      ys.flatMap Grammar.Phrase.tokens ++ rest' := by
    rw [hl.ofQuery_render hplain hf, ← hnames']
    exact hread'
  obtain ⟨q', hq', htables', hpredicates, hor, hliterals⟩ := hagain _ f ys rest' hys hrest htokens'
  refine ⟨q', hq', htables', hpredicates, hor, ?_⟩
  rw [hl.literals, hliterals, hl.ofQuery_render hplain hf]

end TypedMirror.Query
