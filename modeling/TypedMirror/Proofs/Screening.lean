import TypedMirror.Proofs.Rendering

/-!
# Queries that mention no source

A query is searched for the names of the sources before it is read.  The search goes over the query
as it was written, and the reading over its deflated form, in which literals are hidden and markers
have been put; but no part of a marker is ever taken for the name of a table.

* `Query.infix_of_parse` — the tables of a query are named in it;
* `Routing.decision_eq_unscreened` — the search spares work and changes nothing else.
-/

namespace TypedMirror

namespace Text

variable {part t : Text}

theorem has_iff : has t part = true ↔ part <:+: t := by
  constructor
  · intro h
    obtain ⟨⟨a, b⟩, hcut⟩ := Option.isSome_iff_exists.1 h
    exact ⟨a, b, (cut_eq_some hcut).symm⟩
  · rintro ⟨a, b, rfl⟩
    exact has_of_append rfl

/-- A name stands in what is made of names and gaps. -/
theorem infix_flatMap {α : Type} {xs : List α} {x : α} (gap name : α → Text) (hx : x ∈ xs) :
    name x <:+: xs.flatMap fun y => gap y ++ name y := by
  rw [List.flatMap_def]
  have hmem : gap x ++ name x ∈ xs.map fun y => gap y ++ name y := List.mem_map.2 ⟨x, hx, rfl⟩
  exact (List.suffix_append (gap x) (name x)).isInfix.trans (List.infix_of_mem_flatten hmem)

end Text

namespace Query

variable {query : Text} {q : Query}

/-- A table that has been read is named in the query, which need not be of a known operation. -/
theorem infix_of_parse (h : Query.parse query = .ok q) {x : TableRef} (hx : x ∈ q.tables) :
    x.name <:+: query := by
  have hop : q.operation ≠ none := by
    rcases Query.parse_eq_ok h with ⟨-, rfl⟩ | ⟨op, rest, r, -, -, rfl⟩
    · cases hx
    · exact nofun
  obtain ⟨ts, cs, last, hl⟩ := exists_patches_of_parse h hop
  have hquery := hl.query_eq_weave
  rw [← hl.map_name, Text.weave_map] at hquery
  have hname : x.name ∈ ts.map (·.marker.name) := by
    rw [hl.map_name]
    exact List.mem_map_of_mem hx
  obtain ⟨p, hp, hname⟩ := List.mem_map.1 hname
  rw [hquery, ← hname]
  exact (Text.infix_flatMap _ (·.marker.name) hp).trans (List.prefix_append _ _).isInfix

end Query

namespace Routing

variable (mirrors : List Mirror) (query : Text)

/-- The decision for a query that has not been searched for the names of the sources. -/
def unscreened : Decision :=
  match Query.parse query with
  | .error _ => .unchanged query false .notImplemented
  | .ok q =>
    if !q.fullyParsed then .unchanged query false .notFullyParsed
    else if q.operation ≠ some .select then .unchanged query true .notARead
    else readDecision mirrors query q

theorem decision_eq_ite : decision mirrors query =
    if !(Registry.sourcesOf mirrors).any (Text.has query) then
      .unchanged query false .noMirroredTable
    else unscreened mirrors query := rfl

variable {mirrors query}

/-- A query that names no source reads from none. -/
theorem routesOf_of_no_source (h : ∀ s ∈ Registry.sourcesOf mirrors, ¬ s <:+: query) {q : Query}
    (hq : Query.parse query = .ok q) : routesOf mirrors q = [] := by
  rw [List.eq_nil_iff_forall_not_mem]
  intro route hroute
  obtain ⟨hsource, hrefs, -⟩ := mem_routesOf.1 hroute
  obtain ⟨x, hx⟩ := List.exists_mem_of_ne_nil _ hrefs
  obtain ⟨hx, hname⟩ := List.mem_filter.1 hx
  have hinfix := Query.infix_of_parse hq hx
  rw [eq_of_beq hname] at hinfix
  exact h route.source hsource hinfix

theorem unscreened_of_no_source (h : ∀ s ∈ Registry.sourcesOf mirrors, ¬ s <:+: query) :
    (unscreened mirrors query).redirected = query ∧ (unscreened mirrors query).routes = [] := by
  unfold unscreened
  split
  · exact ⟨rfl, rfl⟩
  rename_i q hq
  split
  · exact ⟨rfl, rfl⟩
  split
  · exact ⟨rfl, rfl⟩
  unfold readDecision
  rw [routesOf_of_no_source h hq]
  exact ⟨rfl, rfl⟩

/-- The tables of a query are named in it, so that a query which names no source is left as it is by
reading it, too.  The search makes no difference to what becomes of a query. -/
theorem decision_eq_unscreened (mirrors : List Mirror) (query : Text) :
    (∀ q, Query.parse query = .ok q → ∀ x ∈ q.tables, x.name <:+: query) ∧
      ((∀ s ∈ Registry.sourcesOf mirrors, ¬ s <:+: query) →
        (unscreened mirrors query).redirected = query ∧ (unscreened mirrors query).routes = []) ∧
      (decision mirrors query).redirected = (unscreened mirrors query).redirected ∧
      (decision mirrors query).routes = (unscreened mirrors query).routes := by
  refine ⟨fun q hq x hx => Query.infix_of_parse hq hx, unscreened_of_no_source, ?_⟩
  rw [decision_eq_ite]
  split
  · rename_i hnone
    have hsources : ∀ s ∈ Registry.sourcesOf mirrors, ¬ s <:+: query := by
      simpa [← Text.has_iff] using hnone
    obtain ⟨hredirected, hroutes⟩ := unscreened_of_no_source hsources
    rw [hredirected, hroutes]
    exact ⟨rfl, rfl⟩
  · exact ⟨rfl, rfl⟩

end Routing

end TypedMirror
