import TypedMirror.Proofs.Outcome
import TypedMirror.Query.Parse

/-!
# What a query has been read from

A query that could be read comes from readings of its parts that came to a result.  For each of the
functions that read it, from the spans of the WHERE clause to the whole query, it is said once what
the result was made of.
-/

namespace TypedMirror

namespace Grammar

variable {source : Text} {ts : List Token} {op : Operation} {r : Reading}

/-- The spans behind a span, each after a connector. -/
inductive Cuts : List Token → Spans → Prop
  | stop (ts : List Token) : Cuts ts ⟨[], false, ts⟩
  | dangling {t : Token} {c : Connector} (hc : connects? t = some c) (us : List Token) :
    Cuts (t :: us) ⟨[], c = .disjunction, t :: us⟩
  | more {t u : Token} {us s rest : List Token} {c : Connector} {w : Spans}
    (hc : connects? t = some c) (hs : span us = .ok (u :: s, rest)) (h : Cuts rest w) :
    Cuts (t :: us) ⟨(u :: s) :: w.spans, c = .disjunction || w.usesOr, w.rest⟩

theorem cuts_of_moreSpans {w : Spans} (h : moreSpans ts = .ok w) : Cuts ts w := by
  fun_induction moreSpans ts generalizing w with
  | case1 =>
    cases h
    exact .stop []
  | case2 t us hc =>
    cases h
    exact .stop (t :: us)
  | case3 t us c hc e hs => cases h
  | case4 t us c hc rest hs =>
    cases h
    exact .dangling hc us
  | case5 t us c hc u s rest hs hlen ih =>
    obtain ⟨w, hmore, rfl⟩ := map_eq_ok.1 h
    exact .more hc hs (ih hmore)

theorem whereSpans_eq_ok {w : Spans} (h : whereSpans ts = .ok w) :
    (keyword? "WHERE" ts = none ∧ w = ⟨[], false, ts⟩) ∨
      ∃ us, keyword? "WHERE" ts = some us ∧ (w = ⟨[], false, us⟩ ∨
        ∃ u s rest more, span us = .ok (u :: s, rest) ∧ Cuts rest more ∧
          w = ⟨(u :: s) :: more.spans, more.usesOr, more.rest⟩) := by
  unfold whereSpans at h
  split at h
  · rename_i hwhere
    cases h
    exact .inl ⟨hwhere, rfl⟩
  · rename_i us hwhere
    refine .inr ⟨us, hwhere, ?_⟩
    split at h
    · cases h
    · cases h
      exact .inl rfl
    · rename_i u s rest hs
      obtain ⟨more, hmore, rfl⟩ := map_eq_ok.1 h
      exact .inr ⟨u, s, rest, more, hs, cuts_of_moreSpans hmore, rfl⟩

theorem readConditions_eq_ok {tables : List TableRef} {joins : List Join}
    (h : readConditions source tables joins ts = .ok r) : ∃ w, whereSpans ts = .ok w ∧
      r = ⟨tables, joins, predicatesFrom source 0 w.spans, w.usesOr, tail source w.rest⟩ := by
  obtain ⟨w, hw, h⟩ := bind_eq_ok.1 h
  exact ⟨w, hw, (Except.ok.inj h).symm⟩

/-- The conditions are read behind the joins, or in an update behind the assignments. -/
theorem readTables_eq_ok (h : readTables source op ts = .ok r) :
    (tableList op ts = none ∧ r = .none ts) ∨
      ∃ first us, tableList op ts = some (first, us) ∧
        let js := (joins source).many us
        let tables := first ++ js.1.map (·.table)
        (op = .update ∧ setClause source js.2 = none ∧ r = ⟨tables, js.1, [], false, js.2⟩) ∨
          ∃ rest, (if op = .update then setClause source js.2 else some js.2) = some rest ∧
            readConditions source tables js.1 rest = .ok r := by
  unfold readTables at h
  split at h
  · rename_i hlist
    exact .inl ⟨hlist, (Except.ok.inj h).symm⟩
  · rename_i first us hlist
    refine .inr ⟨first, us, hlist, ?_⟩
    intro js tables
    dsimp only at h
    by_cases hop : op = .update
    · rw [if_pos hop] at h ⊢
      split at h
      · rename_i hset
        exact .inl ⟨hop, hset, (Except.ok.inj h).symm⟩
      · rename_i rest hset
        exact .inr ⟨rest, hset, h⟩
    · rw [if_neg hop] at h ⊢
      exact .inr ⟨js.2, rfl, h⟩

theorem exists_select {rest : List Token} (h : operation? ts = some (.select, rest)) :
    ∃ first, ts = first :: rest ∧ first.isKeyword "SELECT" = true := by
  unfold operation? at h
  split at h
  · cases h
  split at h
  · cases h
    exact ⟨_, rfl, by assumption⟩
  · repeat' split at h
    all_goals cases h

theorem readStatement_eq_ok (h : readStatement source op ts = .ok r) :
    (op ≠ .update ∧ skipToFrom 0 ts = .ok none ∧ r = .none ts) ∨
      (op ≠ .update ∧ ∃ rest, skipToFrom 0 ts = .ok (some rest) ∧
        readTables source op rest = .ok r) ∨
      (op = .update ∧ readTables source op ts = .ok r) := by
  unfold readStatement at h
  by_cases hop : op = .update
  · rw [if_pos hop] at h
    exact .inr (.inr ⟨hop, h⟩)
  · rw [if_neg hop] at h
    split at h
    · cases h
    · rename_i hskip
      exact .inl ⟨hop, hskip, (Except.ok.inj h).symm⟩
    · rename_i rest hskip
      exact .inr (.inl ⟨hop, rest, hskip, h⟩)

end Grammar

/-- A query without a known operation, or the reading of a statement with its template. -/
theorem Query.parse_eq_ok {query : Text} {q : Query} (h : Query.parse query = .ok q) :
    let deflated := Deflated.ofQuery query
    let tokens := Token.read deflated.query
    (Grammar.operation? tokens = none ∧ q = .unknown) ∨
      ∃ op rest r, Grammar.operation? tokens = some (op, rest) ∧
        Grammar.readStatement deflated.query op rest = .ok r ∧
        q = ⟨some op, r.tables, r.joins, r.predicates, r.usesOr, deflated.literals,
          splice 0 deflated.query (edits r),
          Grammar.isFinished r.rest && !tokens.any (·.kind = .comment)⟩ := by
  intro deflated tokens
  unfold Query.parse at h
  dsimp only at h
  split at h
  · rename_i hop
    exact .inl ⟨hop, (Except.ok.inj h).symm⟩
  · rename_i op rest hop
    obtain ⟨r, hr, h⟩ := bind_eq_ok.1 h
    exact .inr ⟨op, rest, r, hop, hr, (Except.ok.inj h).symm⟩

end TypedMirror
