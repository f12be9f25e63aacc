import TypedMirror.Proofs.Conjuncts
import TypedMirror.Proofs.Literals.Places
import TypedMirror.Proofs.Placement

/-!
# The literals of recorded predicates

A predicate is recorded with the numbers of the literals that it compares with.  Each of these is the
number of a token among those that the predicate was read from, and so that of a literal of the query
which stands at the place of this token.

* `Grammar.exists_span` — the tokens that a recorded predicate was read from;
* `Grammar.exists_of_mem_numbers` — the tokens that its numbers are from;
* `Deflated.tokens_agree` — the two readings of quotes agree on the literals.
-/

namespace TypedMirror

/-- The numbers of the literals of an operand. -/
def Operand.numbers : Operand → List Nat
  | .literal id => [id]
  | .literals ids => ids
  | .other _ => []

namespace Grammar

variable {source : Text} {op : Operation} {ts rest us s : List Token} {w : Spans} {p : Predicate}

/-! ## The tokens of a predicate -/

theorem Cuts.infix_of_mem (h : Cuts ts w) : ∀ s ∈ w.spans, s <:+: ts := by
  induction h with
  | stop ts => nofun
  | dangling hc us => nofun
  | @more t u us s rest c w hc hs h ih =>
    have hus := append_of_span hs
    refine List.forall_mem_cons.2 ⟨⟨[t], rest, by rw [← hus]; simp⟩, fun s hs => ?_⟩
    refine (ih s hs).trans (List.IsSuffix.isInfix ?_)
    exact (hus ▸ List.suffix_append _ rest).trans (List.suffix_cons t us)

theorem infix_of_whereSpans (h : whereSpans ts = .ok w) : ∀ s ∈ w.spans, s <:+: ts := by
  rcases whereSpans_eq_ok h with ⟨-, rfl⟩ | ⟨us, hwhere, rfl | ⟨u, s, rest, more, hs, hcuts, rfl⟩⟩
  · nofun
  · nofun
  · have hus := append_of_span hs
    have hts := (advances_of_keyword? hwhere).1
    refine List.forall_mem_cons.2 ⟨?_, fun s hs => ?_⟩
    · exact List.IsInfix.trans (hus ▸ List.prefix_append _ rest).isInfix hts.isInfix
    · exact (hcuts.infix_of_mem s hs).trans
        ((hus ▸ List.suffix_append _ rest).trans hts).isInfix

theorem suffix_of_tableList {xs : List TableRef} (h : tableList op ts = some (xs, rest)) :
    rest <:+ ts := by
  obtain ⟨⟨x, us⟩, hx, h⟩ := Option.bind_eq_some_iff.1 h
  dsimp only at h
  split at h
  · cases h
    exact (advances_of_tableRef hx).1
  · cases h
    exact (suffix_of_many _ us).trans (advances_of_tableRef hx).1

theorem suffix_of_conditionsOfTables (h : conditionsOfTables source op ts = some us) :
    us <:+ ts := by
  obtain ⟨⟨xs, rest⟩, hxs, h⟩ := Option.bind_eq_some_iff.1 h
  have hrest := (suffix_of_many (joins source) rest).trans (suffix_of_tableList hxs)
  dsimp only at h
  split at h
  · exact (suffix_of_setClause h).trans hrest
  · cases h
    exact hrest

theorem suffix_of_conditionsOf (h : conditionsOf source op ts = some us) : us <:+ ts := by
  unfold conditionsOf at h
  split at h
  · exact suffix_of_conditionsOfTables h
  · split at h
    · rename_i rest hskip
      obtain ⟨as, t, rfl, -⟩ := exists_of_skipToFrom hskip
      exact (suffix_of_conditionsOfTables h).trans
        ((List.suffix_cons t rest).trans (List.suffix_append as (t :: rest)))
    · cases h

theorem suffix_of_conditions? {query : Text} (h : Query.conditions? query = some us) :
    us <:+ Token.read (Deflated.ofQuery query).query := by
  obtain ⟨⟨op, rest⟩, hop, h⟩ := Option.bind_eq_some_iff.1 h
  obtain ⟨t, ht, -⟩ := exists_of_operation? hop
  rw [ht]
  exact (suffix_of_conditionsOf h).trans (List.suffix_cons t rest)

/-- A predicate that is recorded was read from a run of the query's tokens. -/
theorem exists_span {query : Text} {q : Query} (h : Query.parse query = .ok q)
    (hp : p ∈ q.predicates) : ∃ s, s <:+: Token.read (Deflated.ofQuery query).query ∧
      predicate? (Deflated.ofQuery query).query s = some p := by
  rcases readsConditions_of_parse h with ⟨-, hnone⟩ | ⟨us, w, hus, hw, hpredicates, -⟩
  · rw [hnone] at hp
    cases hp
  · rw [hpredicates, ← predicates_spotsFrom _ 0 []] at hp
    obtain ⟨x, hx, rfl⟩ := List.mem_map.1 hp
    obtain ⟨hspan, ss₁, ss₂, hss, -⟩ := mem_spotsFrom hx
    refine ⟨x.span, ?_, hspan⟩
    exact (infix_of_whereSpans hw x.span (by rw [hss]; simp)).trans (suffix_of_conditions? hus).isInfix

/-! ## The tokens of its literals -/

theorem exists_of_mem_literalItems {ids : List Nat} (h : literalItems ts = some ids) :
    ∀ id ∈ ids, ∃ t ∈ ts, literalId? t = some id := by
  fun_induction literalItems ts generalizing ids with
  | case1 l close hclose =>
    obtain ⟨id, hid, rfl⟩ := Option.map_eq_some_iff.1 h
    exact List.forall_mem_singleton.2 ⟨l, List.mem_cons_self, hid⟩
  | case2 => cases h
  | case3 l comma ts hts hcomma ih =>
    simp only [Option.bind_eq_bind, Option.bind_eq_some_iff] at h
    obtain ⟨id, hid, more, hmore, h⟩ := h
    cases h
    refine List.forall_mem_cons.2 ⟨⟨l, List.mem_cons_self, hid⟩, fun n hn => ?_⟩
    obtain ⟨t, ht, hn⟩ := ih hmore n hn
    exact ⟨t, List.mem_cons_of_mem l (List.mem_cons_of_mem comma ht), hn⟩
  | case4 => cases h
  | case5 => cases h

theorem exists_of_mem_operand (source : Text) (o : Operator) (ts : List Token) :
    ∀ id ∈ (operand source o ts).numbers, ∃ t ∈ ts, literalId? t = some id := by
  unfold operand
  split
  · rename_i t id hid
    exact List.forall_mem_singleton.2 ⟨t, List.mem_cons_self, hid⟩
  · split
    · rename_i ids hids
      split at hids
      · obtain ⟨us, hus, hitems⟩ := Option.bind_eq_some_iff.1 hids
        intro id hid
        obtain ⟨t, ht, ht'⟩ := exists_of_mem_literalItems hitems id hid
        exact ⟨t, (advances_of_punct? hus).1.mem ht, ht'⟩
      · cases hids
    · nofun

/-- The numbers of a predicate are numbers of its tokens. -/
theorem exists_of_mem_numbers (h : predicate? source s = some p) :
    ∀ id ∈ p.operand.numbers, ∃ t ∈ s, literalId? t = some id := by
  simp only [predicate?, Option.bind_eq_bind, Option.bind_eq_some_iff] at h
  obtain ⟨⟨column, us⟩, hcolumn, ⟨o, ts⟩, ho, h⟩ := h
  cases h
  intro id hid
  obtain ⟨t, ht, ht'⟩ := exists_of_mem_operand source o ts id hid
  exact ⟨t, ((advances_of_operator ho).1.trans (advances_of_columnRef source hcolumn).1).mem ht, ht'⟩

end Grammar

namespace Deflated

theorem Place.exists_iff {query : Text} {id : Nat} :
    (∃ x : Place query, x.number = id) ↔ ((ofQuery query).literal? id).isSome = true := by
  rw [Option.isSome_iff_exists]
  constructor
  · rintro ⟨x, rfl⟩
    exact ⟨x.contents, x.literal?_number⟩
  · rintro ⟨s, hs⟩
    exact exists_of_literal? hs

/-- A literal of a recorded predicate has a token among those of the predicate. -/
theorem exists_place_of_parse {query : Text} {q : Query} {p : Predicate}
    (h : Query.parse query = .ok q) (hp : p ∈ q.predicates) :
    ∃ s, s <:+: Token.read (ofQuery query).query ∧
      Grammar.predicate? (ofQuery query).query s = some p ∧
      ∀ id ∈ p.operand.numbers, ∃ x : Place query, x.number = id ∧ (∃ t ∈ s, x.IsToken t) ∧
        q.literal? id = some x.contents := by
  obtain ⟨s, hs, hread⟩ := Grammar.exists_span h hp
  have hliteral : ∀ id, q.literal? id = (ofQuery query).literal? id := by
    rcases Query.parse_eq_ok h with ⟨-, rfl⟩ | ⟨op, rest, r, -, -, rfl⟩
    · cases hp
    · intro id
      cases id <;> rfl
  refine ⟨s, hs, hread, fun id hid => ?_⟩
  obtain ⟨t, ht, hnumber⟩ := Grammar.exists_of_mem_numbers hread id hid
  obtain ⟨x, rfl, hx⟩ := (literalId?_iff (hs.mem ht)).1 hnumber
  exact ⟨x, rfl, ⟨t, ht, hx⟩, (hliteral _).trans x.literal?_number⟩

/-- The search for literals and the reading of tokens agree.  Each number from one on has its place:
what is before it is deflated by itself, and between its quotes the query has the contents and the
deflated query the marker.  No token starts or ends inside a marker.  It stands, with its quotes, in a
token of their own, or else in a quoted name, a comment or a token without a meaning.  The tokens of
the first sort are those that have a number, that of their place, and these go up.  From them come the
numbers of a recorded predicate. -/
theorem tokens_agree (query : Text) :
    let d := ofQuery query
    let tokens := Token.read d.query
    (∀ id, (∃ x : Place query, x.number = id) ↔ (d.literal? id).isSome = true) ∧
    (∀ x : Place query, query = x.left ++ Passage.enclose x.quote x.contents ++ x.right ∧
      d.query = x.lead ++ (Passage.enclose x.quote (marker x.number).write ++ x.behind) ∧
      x.lead = (ofQuery x.left).query ∧ d.literal? x.number = some x.contents) ∧
    (∀ t ∈ tokens, ∀ x : Place query, ¬ (x.start < t.start ∧ t.start < x.stop) ∧
      ¬ (x.start < t.stop ∧ t.stop < x.stop)) ∧
    (∀ x : Place query, ∃ t ∈ tokens, x.IsToken t ∨
      (t.kind = .quotedName ∨ t.kind = .comment ∨ t.kind = .other) ∧
        t.start ≤ x.start ∧ x.stop ≤ t.stop) ∧
    (∀ t ∈ tokens, ∀ id, Grammar.literalId? t = some id ↔
      ∃ x : Place query, x.number = id ∧ x.IsToken t) ∧
    (tokens.filterMap Grammar.literalId?).Pairwise (· < ·) ∧
    ∀ q, Query.parse query = .ok q → ∀ p ∈ q.predicates, ∃ s, s <:+: tokens ∧
      Grammar.predicate? d.query s = some p ∧ ∀ id ∈ p.operand.numbers,
        ∃ x : Place query, x.number = id ∧ (∃ t ∈ s, x.IsToken t) ∧
          q.literal? id = some x.contents := by
  intro d tokens
  refine ⟨fun id => Place.exists_iff, fun x => ?_, fun t ht x => x.not_inside ht, fun x => ?_,
    fun t ht id => literalId?_iff ht, pairwise_literalId? query,
    fun q hq p hp => exists_place_of_parse hq hp⟩
  · exact ⟨x.query_eq, x.deflated_eq, x.lead_eq, x.literal?_number⟩
  · obtain ⟨t, ht, hstart, hstop, htoken | hkind⟩ := x.exists_token
    · exact ⟨t, ht, .inl htoken⟩
    · exact ⟨t, ht, .inr ⟨hkind, Nat.le_of_lt hstart, Nat.le_of_lt hstop⟩⟩

/-- A quote of this query is in backticks, and opens a literal for the deflation, after which one of
the backticks is missing. -/
theorem tokens_agree_sample :
    let query := "SELECT * FROM t WHERE a = 'x' AND `it's` = 'y'".toList
    let tokens := Token.read (ofQuery query).query
    ∃ q p s, Query.parse query = .ok q ∧ q.predicates = [p] ∧ p.operand = .literal 1 ∧
      s <:+: tokens ∧ Grammar.predicate? (ofQuery query).query s = some p ∧
      (∃ x : Place query, x.number = 1 ∧ (∃ t ∈ s, x.IsToken t) ∧
        q.literal? 1 = some x.contents) ∧
      ∃ x : Place query, x.contents = "s` = ".toList ∧ ∃ t ∈ tokens, t.kind = .other ∧
        ¬ (x.start < t.start ∧ t.start < x.stop) ∧ ¬ (x.start < t.stop ∧ t.stop < x.stop) ∧
        (Grammar.literalId? t = some 2 ↔ ∃ y : Place query, y.number = 2 ∧ y.IsToken t) := by
  intro query tokens
  let template := ("SELECT * FROM [[table:t]] WHERE [[column:a]] = '[[literal:1]]' AND " ++
    "`it'[[literal:2]]'y'").toList
  let p : Predicate := ⟨⟨none, "a".toList, "a".toList, 22⟩, .eq, .literal 1⟩
  let q : Query :=
    ⟨some .select, [⟨"t".toList, none, 14⟩], [], [p], false, ["x".toList, "s` = ".toList],
      template, true⟩
  let x : Place query :=
    ⟨[⟨"SELECT * FROM t WHERE a = ".toList, '\'', "x".toList⟩],
      ⟨" AND `it".toList, '\'', "s` = ".toList⟩, [], by decide +kernel⟩
  let t : Token := ⟨.other, "`it'[[literal:2]]'y'".toList, 46⟩
  have hparse : Query.parse query = .ok q := eq_ok_of_toOption (by decide +kernel)
  have ht : t ∈ tokens := by decide +kernel
  obtain ⟨-, -, hinside, -, hnumber, -, hpredicates⟩ := tokens_agree query
  obtain ⟨s, hs, hread, hids⟩ := hpredicates q hparse p List.mem_cons_self
  exact ⟨q, p, s, hparse, rfl, rfl, hs, hread, hids 1 List.mem_cons_self, x, rfl, t, ht, rfl,
    (hinside t ht x).1, (hinside t ht x).2, hnumber t ht 2⟩

end Deflated

end TypedMirror
