import TypedMirror.Proofs.Reading

/-!
# Where tables and columns stand

The tables and the predicate columns of a query are read from tokens that come one after the other,
each right behind a word, an operator or a punctuation mark that the grammar asks for.

* `marks_tableRef`, `marks_join`, `marks_whereSpans` — what each production says of its tokens;
* `marks_readStatement` — the edits of a statement, in the order of its tokens.
-/

namespace TypedMirror.Grammar

open Query (Edit tableEdit columnEdit)

variable {source : Text}

/-- A token that the grammar asks for in front of a name. -/
def Introduces (t : Token) : Prop :=
  t.kind = .word ∨ t.kind = .operator ∨ t.kind = .punct

/-- The edit is of what these tokens spell. -/
inductive Covers (source : Text) : List Token → Edit → Prop
  | table {t : Token} (ht : isIdentifier t = true) :
    Covers source [t] ⟨namePosition t, namePosition t + t.name.length, ⟨.table, t.name⟩⟩
  | column {t : Token} (ht : isIdentifier t = true) :
    Covers source [t] ⟨t.start, t.start + t.text.length, ⟨.column, t.text⟩⟩
  | qualified {t dot n : Token} (ht : isIdentifier t = true) (hdot : dot.isPunct '.' = true)
    (hn : n.kind = .word ∨ n.kind = .quotedName) :
    Covers source [t, dot, n] ⟨t.start, t.start + (source.slice t.start n.stop).length,
      ⟨.column, source.slice t.start n.stop⟩⟩

/-- The edits are of parts of the token list, one after the other. -/
inductive Marks (source : Text) : List Token → List Edit → Prop
  | none (ts : List Token) : Marks source ts []
  | some {as us ts : List Token} {p : Token} {e : Edit} {es : List Edit} (hp : Introduces p)
    (he : Covers source us e) (h : Marks source ts es) :
    Marks source (as ++ p :: (us ++ ts)) (e :: es)

section Marks

variable {us ts rest : List Token} {p : Token} {e : Edit} {es : List Edit}

theorem Marks.append_left (as : List Token) (h : Marks source ts es) :
    Marks source (as ++ ts) es := by
  cases h with
  | none => exact .none _
  | some hp he h =>
    rw [← List.append_assoc]
    exact .some hp he h

theorem Marks.cons (hp : Introduces p) (he : Covers source us e) (h : Marks source ts es) :
    Marks source (p :: (us ++ ts)) (e :: es) :=
  @Marks.some _ [] _ _ _ _ _ hp he h

theorem Marks.of_suffix (h : Marks source rest es) (hs : rest <:+ ts) : Marks source ts es := by
  obtain ⟨as, rfl⟩ := hs
  exact h.append_left as

/-- Each edit is of tokens of the list. -/
theorem Marks.exists_covers (h : Marks source ts es) (he : e ∈ es) :
    ∃ us, Covers source us e ∧ ∀ t ∈ us, t ∈ ts := by
  induction h with
  | none => cases he
  | some hp hcovers _ ih =>
    rcases List.mem_cons.1 he with rfl | he
    · refine ⟨_, hcovers, ?_⟩
      intro t ht
      simp [ht]
    · obtain ⟨us, hus, hmem⟩ := ih he
      refine ⟨us, hus, ?_⟩
      intro t ht
      simp [hmem t ht]

theorem introduces_of_isKeyword {word : String} (h : p.isKeyword word = true) : Introduces p := by
  unfold Token.isKeyword at h
  rw [Bool.and_eq_true] at h
  exact .inl (of_decide_eq_true h.1)

theorem introduces_of_isPunct {c : Char} (h : p.isPunct c = true) : Introduces p := by
  unfold Token.isPunct at h
  rw [Bool.and_eq_true] at h
  exact .inr (.inr (of_decide_eq_true h.1))

theorem introduces_of_connects? {c : Connector} (h : connects? p = some c) : Introduces p := by
  have operator : ∀ {symbol : String}, p.isOperator symbol = true → Introduces p := by
    intro symbol h
    unfold Token.isOperator at h
    rw [Bool.and_eq_true] at h
    exact .inr (.inl (of_decide_eq_true h.1))
  unfold connects? at h
  split at h
  · rename_i hor
    simp only [Bool.or_eq_true] at hor
    rcases hor with (hor | hor) | hor
    · exact introduces_of_isKeyword hor
    · exact introduces_of_isKeyword hor
    · exact operator hor
  · split at h
    · rename_i hand
      rw [Bool.or_eq_true] at hand
      rcases hand with hand | hand
      · exact introduces_of_isKeyword hand
      · exact operator hand
    · cases h

theorem exists_of_keyword? {word : String} (h : keyword? word ts = some rest) :
    ∃ p, ts = p :: rest ∧ p.isKeyword word = true := by
  unfold keyword? at h
  split at h
  · split at h
    · rename_i hp
      cases h
      exact ⟨_, rfl, hp⟩
    · cases h
  · cases h

theorem exists_of_punct? {c : Char} (h : punct? c ts = some rest) :
    ∃ p, ts = p :: rest ∧ p.isPunct c = true := by
  unfold punct? at h
  split at h
  · split at h
    · rename_i hp
      cases h
      exact ⟨_, rfl, hp⟩
    · cases h
  · cases h

end Marks

/-! ## Tables -/

section Tables

variable {ts rest : List Token} {p : Token} {es : List Edit}

theorem marks_tableRef {x : TableRef} (h : tableRef ts = some (x, rest)) (hp : Introduces p)
    (hm : Marks source rest es) : Marks source (p :: ts) (tableEdit x :: es) := by
  unfold tableRef at h
  split at h
  · cases h
  · rename_i t ts
    split at h
    · rename_i ht
      cases h
      rw [Bool.and_eq_true] at ht
      exact .cons hp (.table ht.1) (hm.of_suffix (readAlias_suffix ts))
    · cases h

theorem marks_many {α : Type} {r : Production α} {edit : α → Edit}
    (hstep : ∀ {ts a rest es}, r.read ts = some (a, rest) → Marks source rest es →
      Marks source ts (edit a :: es)) (h : Marks source (r.many ts).2 es) :
    Marks source ts ((r.many ts).1.map edit ++ es) := by
  fun_induction r.many ts with
  | case1 ts hr => exact h
  | case2 ts a rest hr _ more ih => exact hstep hr (ih h)

theorem suffix_of_many {α : Type} (r : Production α) (ts : List Token) : (r.many ts).2 <:+ ts := by
  fun_induction r.many ts with
  | case1 ts hr => exact List.suffix_refl ts
  | case2 ts a rest hr _ more ih => exact ih.trans (r.advances hr).1

theorem marks_afterComma {x : TableRef} (h : (Production.afterComma tables).read ts = some (x, rest))
    (hm : Marks source rest es) : Marks source ts (tableEdit x :: es) := by
  obtain ⟨us, hcomma, hx⟩ := Option.bind_eq_some_iff.1 h
  obtain ⟨p, rfl, hp⟩ := exists_of_punct? hcomma
  exact marks_tableRef hx (introduces_of_isPunct hp) hm

theorem marks_tableList {op : Operation} {xs : List TableRef} (h : tableList op ts = some (xs, rest))
    (hp : Introduces p) (hm : Marks source rest es) :
    Marks source (p :: ts) (xs.map tableEdit ++ es) := by
  obtain ⟨⟨x, us⟩, hx, h⟩ := Option.bind_eq_some_iff.1 h
  dsimp only at h
  split at h
  · cases h
    exact marks_tableRef hx hp hm
  · cases h
    exact marks_tableRef hx hp (marks_many marks_afterComma hm)

/-- The last word of a join's kind is `JOIN`. -/
theorem exists_of_joinKind {k : JoinKind} (h : joinKind ts = some (k, rest)) :
    ∃ as p, ts = as ++ p :: rest ∧ p.isKeyword "JOIN" = true := by
  have behind : ∀ {t : Token} {us vs : List Token}, vs <:+ us → keyword? "JOIN" vs = some rest →
      ∃ as p, t :: us = as ++ p :: rest ∧ p.isKeyword "JOIN" = true := by
    rintro t us vs ⟨as, rfl⟩ hj
    obtain ⟨p, rfl, hp⟩ := exists_of_keyword? hj
    exact ⟨t :: as, p, rfl, hp⟩
  have outer : ∀ {t : Token} {us : List Token} {kind : JoinKind},
      (keyword? "JOIN" ((keyword? "OUTER" us).getD us)).map (kind, ·) = some (k, rest) →
      ∃ as p, t :: us = as ++ p :: rest ∧ p.isKeyword "JOIN" = true := by
    intro t us kind hm
    obtain ⟨vs, hj, heq⟩ := Option.map_eq_some_iff.1 hm
    cases heq
    exact behind (keyword?_getD_suffix _ _) hj
  have plain : ∀ {t : Token} {us : List Token} {kind : JoinKind},
      (keyword? "JOIN" us).map (kind, ·) = some (k, rest) →
      ∃ as p, t :: us = as ++ p :: rest ∧ p.isKeyword "JOIN" = true := by
    intro t us kind hm
    obtain ⟨vs, hj, heq⟩ := Option.map_eq_some_iff.1 hm
    cases heq
    exact behind (List.suffix_refl _) hj
  unfold joinKind at h
  split at h
  · cases h
  · split at h
    · rename_i hj
      cases h
      exact ⟨[], _, rfl, hj⟩
    · repeat' split at h
      · exact outer h
      · exact outer h
      · exact plain h
      · exact plain h
      · exact plain h
      · cases h

theorem marks_join {j : Join} (h : join source ts = some (j, rest)) (hm : Marks source rest es) :
    Marks source ts (tableEdit j.table :: es) := by
  simp only [join, Option.bind_eq_bind, Option.bind_eq_some_iff, Option.some.injEq,
    Prod.mk.injEq] at h
  obtain ⟨⟨k, us⟩, hkind, ⟨x, vs⟩, hx, ws, hon, ⟨on, zs⟩, hcond, rfl, rfl⟩ := h
  obtain ⟨as, p, rfl, hp⟩ := exists_of_joinKind hkind
  have hsuffix : zs <:+ vs :=
    (advances_of_joinCondition hcond).1.trans (advances_of_keyword? hon).1
  exact (marks_tableRef hx (introduces_of_isKeyword hp) (hm.of_suffix hsuffix)).append_left as

end Tables

/-! ## Columns -/

section Columns

variable {s ts us rest : List Token} {p : Token} {es : List Edit}

theorem covers_of_columnRef {c : ColumnRef} (h : columnRef source ts = some (c, rest)) :
    ∃ us, ts = us ++ rest ∧ Covers source us (columnEdit c) := by
  unfold columnRef at h
  split at h
  · cases h
  · rename_i t ts
    split at h
    · rename_i ht
      split at h
      · cases h
        exact ⟨[t], rfl, .column ht⟩
      · rename_i n us hdot
        obtain ⟨dot, rfl, hpunct⟩ := exists_of_punct? hdot
        split at h
        · rename_i hn
          cases h
          exact ⟨[t, dot, n], rfl, .qualified ht hpunct hn⟩
        · cases h
      · cases h
    · cases h

/-- A predicate starts with its column. -/
theorem marks_predicate (hp : Introduces p) (h : Marks source rest es) :
    Marks source (p :: (s ++ rest))
      ((predicate? source s).toList.map (columnEdit ·.column) ++ es) := by
  cases hx : predicate? source s with
  | none => exact h.append_left (p :: s)
  | some x =>
    obtain ⟨⟨c, ts⟩, hc, hx⟩ := Option.bind_eq_some_iff.1 hx
    obtain ⟨⟨op, us⟩, hop, heq⟩ := Option.bind_eq_some_iff.1 hx
    cases heq
    obtain ⟨us, rfl, hcovers⟩ := covers_of_columnRef hc
    rw [List.append_assoc]
    exact .cons hp hcovers (h.append_left _)

theorem marks_span {ss : List (List Token)} {depth : Int} (hp : Introduces p)
    (h : Marks source rest
      ((predicatesFrom source (depth + balance s) ss).map (columnEdit ·.column))) :
    Marks source (p :: (s ++ rest))
      ((predicatesFrom source depth (s :: ss)).map (columnEdit ·.column)) := by
  rw [predicatesFrom, List.map_append]
  split
  · exact marks_predicate hp h
  · exact h.append_left (p :: s)

theorem Cuts.marks {w : Spans} (h : Cuts ts w) (depth : Int) :
    Marks source ts ((predicatesFrom source depth w.spans).map (columnEdit ·.column)) := by
  induction h generalizing depth with
  | stop ts => exact .none _
  | dangling hc us => exact .none _
  | more hc hs _ ih =>
    rw [← append_of_span hs]
    exact marks_span (introduces_of_connects? hc) (ih _)

theorem marks_whereSpans {w : Spans} (h : whereSpans ts = .ok w) :
    Marks source ts ((predicatesFrom source 0 w.spans).map (columnEdit ·.column)) := by
  rcases whereSpans_eq_ok h with ⟨-, rfl⟩ | ⟨us, hwhere, rfl | ⟨u, s, rest, more, hs, hcuts, rfl⟩⟩
  · exact .none _
  · exact .none _
  · obtain ⟨p, rfl, hp⟩ := exists_of_keyword? hwhere
    rw [← append_of_span hs]
    exact marks_span (introduces_of_isKeyword hp) (hcuts.marks _)

end Columns

/-! ## Statements -/

section Statements

variable {ts rest : List Token} {p : Token} {op : Operation} {r : Reading}

theorem suffix_of_commaList? {α : Type} {x : Production α} (h : commaList? x ts = some rest) :
    rest <:+ ts := by
  obtain ⟨⟨a, us⟩, ha, h⟩ := Option.bind_eq_some_iff.1 h
  dsimp only at h
  split at h
  · cases h
  · cases h
    exact (suffix_of_many _ us).trans (x.advances ha).1

theorem suffix_of_setClause (h : setClause source ts = some rest) : rest <:+ ts := by
  obtain ⟨us, hset, h⟩ := Option.bind_eq_some_iff.1 h
  exact (suffix_of_commaList? h).trans (advances_of_keyword? hset).1

theorem exists_of_skipToFrom {depth : Nat} (h : skipToFrom depth ts = .ok (some rest)) :
    ∃ as p, ts = as ++ p :: rest ∧ p.isKeyword "FROM" = true := by
  induction ts generalizing depth with
  | nil => cases h
  | cons t ts ih =>
    have later : ∀ {depth : Nat}, skipToFrom depth ts = .ok (some rest) →
        ∃ as p, t :: ts = as ++ p :: rest ∧ p.isKeyword "FROM" = true := by
      intro depth h
      obtain ⟨as, p, rfl, hp⟩ := ih h
      exact ⟨t :: as, p, rfl, hp⟩
    unfold skipToFrom at h
    split at h
    · cases h
    · split at h
      · exact later h
      · split at h
        · exact later h
        · split at h
          · rename_i hfrom
            cases h
            exact ⟨[], t, rfl, hfrom.2⟩
          · exact later h

theorem marks_readConditions {xs : List TableRef} {js : List Join}
    (h : readConditions source xs js ts = .ok r) : r.tables = xs ∧
      Marks source ts (r.predicates.map (columnEdit ·.column)) := by
  obtain ⟨w, hw, rfl⟩ := readConditions_eq_ok h
  exact ⟨rfl, marks_whereSpans hw⟩

theorem marks_readTables (h : readTables source op ts = .ok r) (hp : Introduces p) :
    Marks source (p :: ts) (Query.edits r) := by
  rcases readTables_eq_ok h with ⟨-, rfl⟩ | ⟨xs, us, hxs, hr⟩
  · exact .none _
  -- the tables of the joins come after the list, whatever is read behind them
  have hmarks : ∀ {es : List Edit}, Marks source ((joins source).many us).2 es →
      Marks source (p :: ts)
        ((xs ++ ((joins source).many us).1.map (·.table)).map tableEdit ++ es) := by
    intro es hes
    rw [List.map_append, List.map_map, List.append_assoc]
    exact marks_tableList hxs hp (marks_many marks_join hes)
  unfold Query.edits
  rcases hr with ⟨-, -, rfl⟩ | ⟨rest, hrest, hconditions⟩
  · exact hmarks (.none _)
  · obtain ⟨htables, hpred⟩ := marks_readConditions hconditions
    have hsuffix : rest <:+ ((joins source).many us).2 := by
      split at hrest
      · exact suffix_of_setClause hrest
      · exact Option.some.inj hrest ▸ List.suffix_refl _
    rw [htables]
    exact hmarks (hpred.of_suffix hsuffix)

theorem marks_readStatement (h : readStatement source op ts = .ok r) (hp : Introduces p) :
    Marks source (p :: ts) (Query.edits r) := by
  rcases readStatement_eq_ok h with ⟨-, -, rfl⟩ | ⟨-, rest, hskip, hr⟩ | ⟨-, hr⟩
  · exact .none _
  · obtain ⟨as, q, rfl, hq⟩ := exists_of_skipToFrom hskip
    exact (marks_readTables hr (introduces_of_isKeyword hq)).append_left (p :: as)
  · exact marks_readTables hr hp

theorem exists_of_operation? (h : operation? ts = some (op, rest)) :
    ∃ p, ts = p :: rest ∧ Introduces p := by
  unfold operation? at h
  split at h
  · cases h
  · repeat' split at h
    all_goals cases h
    all_goals exact ⟨_, rfl, introduces_of_isKeyword (by assumption)⟩

end Statements

end TypedMirror.Grammar
