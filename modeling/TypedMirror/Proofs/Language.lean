import TypedMirror.Proofs.Language.Spans

/-!
# The language of the SELECT statements

A query counts as fully parsed when nothing is left of it.  Each production leaves the tokens
behind a phrase of its shape, and all of its tokens if it finds none.  So a statement is read to its
end just if it has the shape of a statement, or if it ends where a production found nothing.

* `body_of_readTables`, `exists_reading_of_body` — what stands behind the `FROM`;
* `shape_of_readStatement`, `exists_reading_of_select` — statements;
* `fullyParsed_select_iff` — for queries.
-/

namespace TypedMirror

namespace Grammar

variable {source : Text} {t : Token} {ts us rest A : List Token} {depth : Nat} {r : Reading}

/-! ## Up to the `FROM` -/

theorem skipped_cons : Shape.Skipped depth (t :: A) ↔ t.isKeyword "SELECT" = false ∧
    (t.isKeyword "FROM" = true → depth ≠ 0) ∧ Shape.Skipped (Shape.depthAfter depth [t]) A := by
  constructor
  · rintro ⟨hselect, hfrom, hclosed⟩
    exact ⟨hselect t List.mem_cons_self, hfrom [] t A rfl,
      fun u hu => hselect u (List.mem_cons_of_mem t hu),
      fun a u b hA => hfrom (t :: a) u b (congrArg _ hA), hclosed⟩
  · rintro ⟨hselect, hfrom, hselects, hfroms, hclosed⟩
    refine ⟨?_, ?_, hclosed⟩
    · rintro u (_ | ⟨_, hu⟩)
      · exact hselect
      · exact hselects u hu
    · rintro a u b hA hu
      cases a with
      | nil =>
        obtain ⟨rfl, -⟩ := List.cons.inj hA
        exact hfrom hu
      | cons v a =>
        obtain ⟨rfl, hsplit⟩ := List.cons.inj hA
        exact hfroms a u b hsplit hu

theorem skipToFrom_cons (hselect : t.isKeyword "SELECT" = false) (ts : List Token) :
    skipToFrom depth (t :: ts) =
      if depth = 0 ∧ t.isKeyword "FROM" = true then .ok (some ts)
      else skipToFrom (Shape.depthAfter depth [t]) ts := by
  have hparen : ∀ {c : Char}, t.isPunct c = true → t.isKeyword "FROM" = false := fun h =>
    not_isKeyword_of_kind (by rw [kind_of_isPunct h]; decide)
  have hdepth : Shape.depthAfter depth [t] =
      if t.isPunct '(' then depth + 1 else if t.isPunct ')' then depth - 1 else depth := rfl
  rw [skipToFrom, if_neg (by rw [hselect]; decide), hdepth]
  by_cases hopen : t.isPunct '(' = true
  · simp [hopen, hparen hopen]
  by_cases hclose : t.isPunct ')' = true
  · simp [hopen, hclose, hparen hclose]
  · simp only [if_neg hopen, if_neg hclose]

theorem skipToFrom_iff : skipToFrom depth ts = .ok (some rest) ↔ ∃ A f, ts = A ++ f :: rest ∧
    Shape.Skipped depth A ∧ f.isKeyword "FROM" = true := by
  induction ts generalizing depth with
  | nil => simp [skipToFrom]
  | cons t ts ih =>
    by_cases hselect : t.isKeyword "SELECT" = true
    · rw [skipToFrom, if_pos hselect]
      refine ⟨by rintro ⟨⟩, ?_⟩
      rintro ⟨A, f, heq, hA, hf⟩
      cases A with
      | nil =>
        obtain ⟨rfl, -⟩ := List.cons.inj heq
        rw [not_isKeyword hselect (by decide)] at hf
        cases hf
      | cons u A =>
        obtain ⟨rfl, -⟩ := List.cons.inj heq
        rw [hA.noSelect t List.mem_cons_self] at hselect
        cases hselect
    rw [Bool.not_eq_true] at hselect
    rw [skipToFrom_cons hselect]
    split
    · rename_i hfrom
      obtain ⟨rfl, hfrom⟩ := hfrom
      constructor
      · rintro ⟨⟩
        exact ⟨[], t, rfl, ⟨by simp, by simp, rfl⟩, hfrom⟩
      · rintro ⟨A, f, heq, hA, hf⟩
        cases A with
        | nil => rw [(List.cons.inj heq).2]
        | cons u A =>
          obtain ⟨rfl, -⟩ := List.cons.inj heq
          exact absurd rfl ((skipped_cons.1 hA).2.1 hfrom)
    · rename_i hfrom
      rw [ih]
      constructor
      · rintro ⟨A, f, rfl, hA, hf⟩
        exact ⟨t :: A, f, rfl, skipped_cons.2 ⟨hselect, fun h hdepth => hfrom ⟨hdepth, h⟩, hA⟩, hf⟩
      · rintro ⟨A, f, heq, hA, hf⟩
        cases A with
        | nil =>
          obtain ⟨rfl, -⟩ := List.cons.inj heq
          exact absurd ⟨hA.closed, hf⟩ hfrom
        | cons u A =>
          obtain ⟨rfl, rfl⟩ := List.cons.inj heq
          exact ⟨A, f, rfl, (skipped_cons.1 hA).2.2, hf⟩

theorem skipToFrom_of_ends (h : Shape.Ends ts) : skipToFrom 0 ts = .ok none := by
  rcases h with rfl | ⟨t, rfl, ht⟩
  · rfl
  · have hkeyword : ∀ word, t.isKeyword word = false := fun word =>
      not_isKeyword_of_kind (by rw [kind_of_isPunct ht]; decide)
    rw [skipToFrom_cons (hkeyword _), hkeyword]
    rfl

/-! ## Behind the `FROM` -/

theorem exists_of_tables (ht : Shape.Commas Shape.Table ts us)
    (hus : Settled us) (hcomma : punct? ',' us = none) :
    ∃ first more, tableList .select ts = some (first :: more, us) := by
  have hbehind : ∀ {c : Token} {vs : List Token}, c.isPunct ',' = true → Settled (c :: vs) := by
    rintro c vs hc t ⟨⟩
    have hkind := kind_of_isPunct hc
    exact ⟨by simp [isIdentifier, hkind], not_isKeyword_of_kind (by simp [hkind])⟩
  obtain ⟨first, vs, hfirst, hmany⟩ :=
    exists_of_commas (p := tables) exists_tableRef hbehind ht hus hcomma
  refine ⟨first, ((Production.afterComma tables).many vs).1, ?_⟩
  have hread : tableRef ts = some (first, vs) := hfirst
  simp only [tableList, hread, Option.bind_eq_bind, Option.bind_some, reduceCtorEq, if_false, hmany]

theorem tables_of_tableList {xs : List TableRef} (h : tableList .select ts = some (xs, us)) :
    xs ≠ [] ∧ Shape.Commas Shape.Table ts us := by
  obtain ⟨⟨first, vs⟩, hfirst, h⟩ := Option.bind_eq_some_iff.1 h
  simp only [reduceCtorEq, if_false, Option.some.injEq, Prod.mk.injEq] at h
  obtain ⟨rfl, rfl⟩ := h
  exact ⟨List.cons_ne_nil _ _, commas_of_many (p := tables) table_of_tableRef hfirst⟩

/-- The words that start a join. -/
def joinWords : List String := ["JOIN", "LEFT", "RIGHT", "INNER", "OUTER", "CROSS"]

/-- The words that start what may stand behind the joins. -/
def clauseWords : List String := ["WHERE", "GROUP", "ORDER", "LIMIT", "OFFSET"]

theorem starts_of_join (h : Shape.Join ts rest) :
    ∃ t us, ts = t :: us ∧ ∃ word ∈ joinWords, t.isKeyword word = true := by
  obtain ⟨hwords, -, -, -⟩ := h
  cases hwords with
  | plain ht => exact ⟨_, _, rfl, "JOIN", by decide, ht⟩
  | side hk =>
    rcases hk with hk | hk
    · exact ⟨_, _, rfl, "LEFT", by decide, hk⟩
    · exact ⟨_, _, rfl, "RIGHT", by decide, hk⟩
  | outerSide hk =>
    rcases hk with hk | hk
    · exact ⟨_, _, rfl, "LEFT", by decide, hk⟩
    · exact ⟨_, _, rfl, "RIGHT", by decide, hk⟩
  | kind hk =>
    rcases hk with hk | hk | hk
    · exact ⟨_, _, rfl, "INNER", by decide, hk⟩
    · exact ⟨_, _, rfl, "OUTER", by decide, hk⟩
    · exact ⟨_, _, rfl, "CROSS", by decide, hk⟩

theorem starts_of_where (hw : Shape.Where ts us) (h : Shape.Closing us) :
    Starts clauseWords ts := by
  cases hw with
  | absent => exact (starts_of_closing h).mono (by decide)
  | empty hk => exact .cons hk (by decide) _
  | spans hk => exact .cons hk (by decide) _

theorem join_eq_none (h : Starts clauseWords ts) : join source ts = none := by
  have hne : ∀ w ∈ clauseWords, ∀ v ∈ joinWords, Text.lower w.toList ≠ Text.lower v.toList := by
    decide
  rw [Option.eq_none_iff_forall_ne_some]
  rintro ⟨j, rest⟩ hj
  obtain ⟨t, us, rfl, word, hword, ht⟩ := starts_of_join ((join_iff source).1 ⟨j, hj⟩)
  rw [h.isKeyword (fun w hw => hne w hw word hword) t rfl] at ht
  cases ht

theorem starts_of_joins (hj : Relation.ReflTransGen Shape.Join ts us) (h : Starts clauseWords us) :
    Starts (joinWords ++ clauseWords) ts := by
  rcases hj.cases_head with rfl | ⟨rest, hjoin, -⟩
  · exact h.mono (List.subset_append_right _ _)
  · obtain ⟨t, vs, rfl, word, hword, ht⟩ := starts_of_join hjoin
    exact .cons ht (List.mem_append_left _ hword) vs

/-- What has the shape of a body is read to its end. -/
theorem exists_reading_of_body (h : Shape.Body ts) :
    ∃ r, readTables source .select ts = .ok r ∧ r.tables ≠ [] ∧ isFinished r.rest = true := by
  cases h with
  | @intro as bs cs ht hj hw hclosing =>
    have hclause := starts_of_where hw hclosing
    have hstarts := starts_of_joins hj hclause
    obtain ⟨first, more, hlist⟩ :=
      exists_of_tables ht (hstarts.settled (by decide)) (hstarts.punct?_eq_none (by decide))
    have hmany := many_of_star (p := joins source) (join_iff source).2 hj (join_eq_none hclause)
    obtain ⟨w, hwhere, hrest⟩ := exists_whereSpans hw hclosing
    let js := (joins source).many as
    refine ⟨⟨first :: more ++ js.1.map (·.table), js.1, predicatesFrom source 0 w.spans, w.usesOr,
      tail source w.rest⟩, ?_, by simp, ?_⟩
    · simp only [readTables, hlist, reduceCtorEq, if_false, hmany, readConditions, hwhere]
      rfl
    · dsimp only
      rw [hrest]
      exact (isFinished_tail_iff source).2 hclosing

theorem readTables_of_ends (h : Shape.Ends ts) :
    readTables source .select ts = .ok (.none ts) := by
  have hlist : tableList .select ts = none := by
    rcases h with rfl | ⟨t, rfl, ht⟩
    · rfl
    · have hname : isIdentifier t = false := by simp [isIdentifier, kind_of_isPunct ht]
      simp [tableList, tableRef, hname]
  rw [readTables, hlist]

/-- What is read to its end has the shape of a body, or is not there. -/
theorem body_of_readTables (h : readTables source .select ts = .ok r)
    (hend : isFinished r.rest = true) :
    (r.tables ≠ [] ∧ Shape.Body ts) ∨ (r.tables = [] ∧ Shape.Ends ts) := by
  rcases readTables_eq_ok h with ⟨-, rfl⟩ | ⟨xs, us, hlist, ⟨hop, -, -⟩ | ⟨vs, hvs, hr⟩⟩
  · exact .inr ⟨rfl, isFinished_iff.1 hend⟩
  · cases hop
  · rw [if_neg (by decide)] at hvs
    cases hvs
    obtain ⟨w, hwhere, rfl⟩ := readConditions_eq_ok hr
    obtain ⟨hne, htables⟩ := tables_of_tableList hlist
    have hclosing := (isFinished_tail_iff source).1 hend
    refine .inl ⟨by simp [hne], .intro htables ?_
      (where_of_whereSpans hwhere (not_isConnector_of_closing hclosing)) hclosing⟩
    exact star_of_many (p := joins source) (fun hj => (join_iff source).1 ⟨_, hj⟩) us

/-! ## Statements -/

variable {s : Token}

theorem shape_of_readStatement (hs : s.isKeyword "SELECT" = true)
    (h : readStatement source .select ts = .ok r) (hend : isFinished r.rest = true) :
    (r.tables ≠ [] ∧ Shape.Select (s :: ts)) ∨ (r.tables = [] ∧ Shape.CutShort (s :: ts)) := by
  rcases readStatement_eq_ok h with ⟨-, -, rfl⟩ | ⟨-, us, hskip, hr⟩ | ⟨hop, -⟩
  · exact .inr ⟨rfl, .first hs (isFinished_iff.1 hend)⟩
  · obtain ⟨A, f, rfl, hA, hf⟩ := skipToFrom_iff.1 hskip
    rcases body_of_readTables hr hend with ⟨hne, hbody⟩ | ⟨hnone, hends⟩
    · exact .inl ⟨hne, .intro hs hA hf hbody⟩
    · exact .inr ⟨hnone, .behindFrom hs hA hf hends⟩
  · cases hop

theorem readStatement_eq {f : Token} (hA : Shape.Skipped 0 A) (hf : f.isKeyword "FROM" = true) :
    readStatement source .select (A ++ f :: ts) = readTables source .select ts := by
  have hskip : skipToFrom 0 (A ++ f :: ts) = .ok (some ts) :=
    skipToFrom_iff.2 ⟨A, f, rfl, hA, hf⟩
  rw [readStatement, if_neg (by decide), hskip]

theorem exists_reading_of_select (h : Shape.Select ts) : ∃ us r,
    operation? ts = some (.select, us) ∧ readStatement source .select us = .ok r ∧ r.tables ≠ [] ∧
      isFinished r.rest = true := by
  obtain ⟨hs, hA, hf, hbody⟩ := h
  obtain ⟨r, hr, hne, hend⟩ := exists_reading_of_body hbody
  exact ⟨_, r, if_pos hs, (readStatement_eq hA hf).trans hr, hne, hend⟩

theorem exists_reading_of_cutShort (h : Shape.CutShort ts) : ∃ us r,
    operation? ts = some (.select, us) ∧ readStatement source .select us = .ok r ∧ r.tables = [] ∧
      isFinished r.rest = true := by
  cases h with
  | @first s ts hs hends =>
    refine ⟨ts, .none ts, if_pos hs, ?_, rfl, isFinished_iff.2 hends⟩
    rw [readStatement, if_neg (by decide), skipToFrom_of_ends hends]
  | @behindFrom s f A ts hs hA hf hends =>
    exact ⟨_, .none ts, if_pos hs, (readStatement_eq hA hf).trans (readTables_of_ends hends), rfl,
      isFinished_iff.2 hends⟩

end Grammar

/-! ## Queries -/

open Grammar

variable {query : Text} {q : Query}

/-- The query is read as a SELECT, and to its end. -/
structure IsReadSelect (query : Text) (q : Query) : Prop where
  parsed : Query.parse query = .ok q
  operation : q.operation = some .select
  complete : q.fullyParsed = true

namespace IsReadSelect

theorem shape (h : IsReadSelect query q) :
    let tokens := Token.read (Deflated.ofQuery query).query
    (∀ t ∈ tokens, t.kind ≠ .comment) ∧
      ((q.tables ≠ [] ∧ Shape.Select tokens) ∨ (q.tables = [] ∧ Shape.CutShort tokens)) := by
  intro tokens
  obtain ⟨hparse, hop, hfull⟩ := h
  rcases Query.parse_eq_ok hparse with ⟨-, rfl⟩ | ⟨op, us, r, hfirst, hr, rfl⟩
  · cases hop
  · cases hop
    obtain ⟨s, htokens, hs⟩ := exists_select hfirst
    rw [Bool.and_eq_true] at hfull
    refine ⟨by simpa using hfull.2, ?_⟩
    show _ ∨ _
    rw [show tokens = s :: us from htokens]
    exact shape_of_readStatement hs hr hfull.1

theorem exists_of_reading {us : List Token} {r : Reading}
    (hcomment : ∀ t ∈ Token.read (Deflated.ofQuery query).query, t.kind ≠ .comment)
    (hop : operation? (Token.read (Deflated.ofQuery query).query) = some (.select, us))
    (hr : readStatement (Deflated.ofQuery query).query .select us = .ok r)
    (hend : isFinished r.rest = true) : ∃ q, IsReadSelect query q ∧ q.tables = r.tables := by
  have hparse : ∃ q, Query.parse query = .ok q := by
    unfold Query.parse
    simp only [hop, hr]
    exact ⟨_, rfl⟩
  obtain ⟨q, hq⟩ := hparse
  rcases Query.parse_eq_ok hq with ⟨hnone, -⟩ | ⟨op, vs, r', hop', hr', rfl⟩
  · cases hop.symm.trans hnone
  · cases hop.symm.trans hop'
    cases hr.symm.trans hr'
    exact ⟨_, ⟨hq, rfl, by simpa [hend] using hcomment⟩, rfl⟩

end IsReadSelect

/-- The SELECT queries that are read to their end are those without comments that have the shape of
a SELECT statement, and those that end behind their first word or behind their first `FROM` outside
all parentheses.  Of the latter no table is read. -/
theorem fullyParsed_select_iff (query : Text) :
    let tokens := Token.read (Deflated.ofQuery query).query
    ((∃ q, IsReadSelect query q ∧ q.tables ≠ []) ↔
      (∀ t ∈ tokens, t.kind ≠ .comment) ∧ Shape.Select tokens) ∧
    ((∃ q, IsReadSelect query q) ↔
      (∀ t ∈ tokens, t.kind ≠ .comment) ∧ (Shape.Select tokens ∨ Shape.CutShort tokens)) := by
  intro tokens
  have hselect : (∀ t ∈ tokens, t.kind ≠ .comment) → Shape.Select tokens →
      ∃ q, IsReadSelect query q ∧ q.tables ≠ [] := by
    intro hcomment h
    obtain ⟨us, r, hop, hr, hne, hend⟩ := exists_reading_of_select h
    obtain ⟨q, hq, htables⟩ := IsReadSelect.exists_of_reading hcomment hop hr hend
    exact ⟨q, hq, htables ▸ hne⟩
  constructor
  · constructor
    · rintro ⟨q, hq, hne⟩
      obtain ⟨hcomment, ⟨-, h⟩ | ⟨hnone, -⟩⟩ := hq.shape
      · exact ⟨hcomment, h⟩
      · exact absurd hnone hne
    · exact fun ⟨hcomment, h⟩ => hselect hcomment h
  · constructor
    · rintro ⟨q, hq⟩
      obtain ⟨hcomment, h⟩ := hq.shape
      exact ⟨hcomment, h.imp And.right And.right⟩
    · rintro ⟨hcomment, h | h⟩
      · obtain ⟨q, hq, -⟩ := hselect hcomment h
        exact ⟨q, hq⟩
      · obtain ⟨us, r, hop, hr, -, hend⟩ := exists_reading_of_cutShort h
        obtain ⟨q, hq, -⟩ := IsReadSelect.exists_of_reading hcomment hop hr hend
        exact ⟨q, hq⟩

/-- A table stands behind the `FROM` of a statement. -/
theorem Shape.Select.exists_behind {ts : List Token} (h : Shape.Select ts) :
    ∃ s A f t us, ts = s :: (A ++ f :: t :: us) ∧ f.isKeyword "FROM" = true := by
  obtain ⟨-, -, hf, ⟨htables, -, -, -⟩⟩ := h
  have htable : ∀ {us vs : List Token}, Shape.Table us vs → ∃ t ws, us = t :: ws := by
    rintro us vs (_ | _ | _) <;> exact ⟨_, _, rfl⟩
  cases htables with
  | one h =>
    obtain ⟨t, us, rfl⟩ := htable h
    exact ⟨_, _, _, t, us, rfl, hf⟩
  | more h =>
    obtain ⟨t, us, rfl⟩ := htable h
    exact ⟨_, _, _, t, us, rfl, hf⟩

/-- A statement without tables. -/
theorem fullyParsed_without_tables :
    let query := "SELECT * FROM".toList
    ∃ q, IsReadSelect query q ∧ q.tables = [] ∧
      ¬ Shape.Select (Token.read (Deflated.ofQuery query).query) := by
  intro query
  have htokens : Token.read (Deflated.ofQuery query).query =
      [⟨.word, "SELECT".toList, 0⟩, ⟨.punct, "*".toList, 7⟩, ⟨.word, "FROM".toList, 9⟩] := by
    decide +kernel
  have hparse : Query.parse query = .ok ⟨some .select, [], [], [], false, [], query, true⟩ :=
    eq_ok_of_toOption (by decide +kernel)
  refine ⟨_, ⟨hparse, rfl, rfl⟩, rfl, ?_⟩
  rw [htokens]
  intro h
  obtain ⟨s, A, f, t, us, heq, hf⟩ := h.exists_behind
  cases A with
  | nil =>
    simp only [List.nil_append, List.cons.injEq] at heq
    rw [← heq.2.1] at hf
    exact absurd hf (by decide)
  | cons a A =>
    have hlength := congrArg List.length heq
    simp at hlength
    omega

end TypedMirror
