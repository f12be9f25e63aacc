import TypedMirror.Proofs.Conjuncts
import TypedMirror.Proofs.Coverage
import TypedMirror.Proofs.Placement

/-!
# Separators in a query

A query that was read to its end has no semicolon among the tokens that its productions have asked
for.  Two stretches are taken without being looked at: what stands before the first `FROM`, and the
spans of the WHERE clause.

* `passes_of_tableList`, `passes_of_join`, `passes_of_tail` — no production takes a semicolon;
* `Cuts.spread` — the semicolons of a WHERE clause are in its spans;
* `Routing.isSingle_iff_of_routes` — when a query that is redirected is a single statement;
* `Routing.redirected_write` — a query that is not.
-/

namespace TypedMirror.Grammar

/-! ## What a production takes -/

/-- What is taken of `ts` to leave `rest` holds no semicolon. -/
def Passes (ts rest : List Token) : Prop :=
  ∃ us, ts = us ++ rest ∧ ∀ t ∈ us, t.isPunct ';' = false

section Productions

variable {source : Text} {ts us rest : List Token} {t : Token}

theorem Passes.refl (ts : List Token) : Passes ts ts := ⟨[], rfl, by simp⟩

theorem Passes.trans (h₁ : Passes ts us) (h₂ : Passes us rest) : Passes ts rest := by
  obtain ⟨as, rfl, has⟩ := h₁
  obtain ⟨bs, rfl, hbs⟩ := h₂
  refine ⟨as ++ bs, (List.append_assoc as bs rest).symm, ?_⟩
  intro t ht
  rcases List.mem_append.1 ht with ht | ht
  · exact has t ht
  · exact hbs t ht

theorem Passes.cons (ht : t.isPunct ';' = false) (h : Passes ts rest) : Passes (t :: ts) rest := by
  obtain ⟨us, rfl, hus⟩ := h
  exact ⟨t :: us, rfl, List.forall_mem_cons.2 ⟨ht, hus⟩⟩

theorem passes_of_kind (ht : t.kind ≠ .punct) (ts : List Token) : Passes (t :: ts) ts :=
  .cons (not_isPunct_of_kind ht) (.refl ts)

theorem not_isPunct_of_isKeyword {word : String} {c : Char} (h : t.isKeyword word = true) :
    t.isPunct c = false :=
  not_isPunct_of_kind (by rw [kind_of_isKeyword h]; decide)

theorem passes_of_isKeyword {word : String} (h : t.isKeyword word = true) (ts : List Token) :
    Passes (t :: ts) ts :=
  .cons (not_isPunct_of_isKeyword h) (.refl ts)

theorem passes_of_keyword? {word : String} (h : keyword? word ts = some rest) : Passes ts rest := by
  obtain ⟨p, rfl, hp⟩ := exists_of_keyword? h
  exact passes_of_isKeyword hp rest

theorem passes_of_getD (word : String) (ts : List Token) :
    Passes ts ((keyword? word ts).getD ts) := by
  cases h : keyword? word ts with
  | none => exact .refl ts
  | some rest => exact passes_of_keyword? h

theorem passes_of_punct? {c : Char} (hc : c ≠ ';') (h : punct? c ts = some rest) :
    Passes ts rest := by
  obtain ⟨p, rfl, hp⟩ := exists_of_punct? h
  exact .cons (not_isPunct hp hc) (.refl rest)

theorem passes_of_number? (h : number? ts = some rest) : Passes ts rest := by
  unfold number? at h
  split at h
  · split at h
    · rename_i hkind
      cases h
      exact passes_of_kind (by rw [hkind]; decide) _
    · cases h
  · cases h

theorem passes_of_isIdentifier (h : isIdentifier t = true) (ts : List Token) :
    Passes (t :: ts) ts := by
  refine passes_of_kind ?_ ts
  intro hkind
  rw [isIdentifier, hkind] at h
  cases h

/-! ## Tables and their joins -/

theorem passes_of_readAlias (ts : List Token) : Passes ts (readAlias ts).2 := by
  have h := passes_of_getD "AS" ts
  unfold readAlias
  split
  · rename_i t rest hr
    rw [hr] at h
    split
    · exact h.trans (passes_of_isIdentifier (by assumption) rest)
    · exact .refl ts
  · exact .refl ts

theorem passes_of_tableRef {x : TableRef} (h : tableRef ts = some (x, rest)) : Passes ts rest := by
  unfold tableRef at h
  split at h
  · cases h
  · split at h
    · rename_i ht
      rw [Bool.and_eq_true] at ht
      cases h
      exact (passes_of_isIdentifier ht.1 _).trans (passes_of_readAlias _)
    · cases h

theorem passes_of_columnRef {c : ColumnRef} (h : columnRef source ts = some (c, rest)) :
    Passes ts rest := by
  obtain ⟨us, rfl, hcovers⟩ := covers_of_columnRef h
  generalize Query.columnEdit c = e at hcovers
  cases hcovers with
  | table ht => exact passes_of_isIdentifier ht rest
  | column ht => exact passes_of_isIdentifier ht rest
  | qualified ht hdot hn =>
    refine (passes_of_isIdentifier ht _).trans (.cons (not_isPunct hdot (by decide)) ?_)
    refine passes_of_kind ?_ rest
    rcases hn with hn | hn
    · rw [hn]
      decide
    · rw [hn]
      decide

theorem passes_of_operator {allowIn : Bool} {o : Operator}
    (h : operator allowIn ts = some (o, rest)) : Passes ts rest := by
  unfold operator at h
  split at h
  · cases h
  · split at h
    · rename_i hkind
      obtain ⟨_, -, heq⟩ := Option.map_eq_some_iff.1 h
      cases heq
      exact passes_of_kind (by rw [hkind]; decide) _
    split at h
    · cases h
      exact passes_of_isKeyword (by assumption) _
    split at h
    · split at h
      · cases h
        exact (passes_of_isKeyword (by assumption) _).trans (passes_of_keyword? (by assumption))
      · cases h
        exact passes_of_isKeyword (by assumption) _
    split at h
    · split at h
      · cases h
        exact (passes_of_isKeyword (by assumption) _).trans (passes_of_keyword? (by assumption))
      · split at h
        · split at h
          · cases h
            exact (passes_of_isKeyword (by assumption) _).trans (passes_of_keyword? (by assumption))
          · cases h
        · cases h
    split at h
    · rename_i hin
      cases h
      simp only [Bool.and_eq_true] at hin
      exact passes_of_isKeyword hin.1.1 _
    · cases h

theorem passes_of_joinKind {k : JoinKind} (h : joinKind ts = some (k, rest)) : Passes ts rest := by
  have behind : ∀ {t : Token} {us vs : List Token} {word : String} {kind : JoinKind},
      t.isKeyword word = true → Passes us vs →
      (keyword? "JOIN" vs).map (kind, ·) = some (k, rest) → Passes (t :: us) rest := by
    intro t us vs word kind ht hvs hm
    obtain ⟨ws, hj, heq⟩ := Option.map_eq_some_iff.1 hm
    cases heq
    exact (passes_of_isKeyword ht us).trans (hvs.trans (passes_of_keyword? hj))
  unfold joinKind at h
  split at h
  · cases h
  split at h
  · cases h
    exact passes_of_isKeyword (by assumption) _
  split at h
  · exact behind (by assumption) (passes_of_getD "OUTER" _) h
  split at h
  · exact behind (by assumption) (passes_of_getD "OUTER" _) h
  split at h
  · exact behind (by assumption) (.refl _) h
  split at h
  · exact behind (by assumption) (.refl _) h
  split at h
  · exact behind (by assumption) (.refl _) h
  · cases h

theorem passes_of_comparison {on : ColumnRef × Operator × ColumnRef}
    (h : comparison source ts = some (on, rest)) : Passes ts rest := by
  simp only [comparison, Option.bind_eq_bind, Option.bind_eq_some_iff, Option.some.injEq,
    Prod.mk.injEq] at h
  obtain ⟨⟨_, _⟩, hleft, ⟨_, _⟩, hop, ⟨_, _⟩, hright, -, rfl⟩ := h
  exact (passes_of_columnRef hleft).trans
    ((passes_of_operator hop).trans (passes_of_columnRef hright))

theorem passes_of_joinCondition {on : ColumnRef × Operator × ColumnRef}
    (h : joinCondition source ts = some (on, rest)) : Passes ts rest := by
  unfold joinCondition at h
  split at h
  · exact passes_of_comparison h
  · rename_i hopen
    simp only [Option.bind_eq_bind, Option.bind_eq_some_iff, Option.some.injEq,
      Prod.mk.injEq] at h
    obtain ⟨⟨_, _⟩, hcomparison, _, hclose, -, rfl⟩ := h
    exact (passes_of_punct? (by decide) hopen).trans
      ((passes_of_comparison hcomparison).trans (passes_of_punct? (by decide) hclose))

theorem passes_of_join {j : Join} (h : join source ts = some (j, rest)) : Passes ts rest := by
  simp only [join, Option.bind_eq_bind, Option.bind_eq_some_iff, Option.some.injEq,
    Prod.mk.injEq] at h
  obtain ⟨⟨_, _⟩, hkind, ⟨_, _⟩, htable, _, hon, ⟨_, _⟩, hcondition, -, rfl⟩ := h
  exact (passes_of_joinKind hkind).trans ((passes_of_tableRef htable).trans
    ((passes_of_keyword? hon).trans (passes_of_joinCondition hcondition)))

/-! ## Lists -/

section Lists

variable {α : Type} {p : Production α}

theorem passes_of_many (h : ∀ {ts a rest}, p.read ts = some (a, rest) → Passes ts rest)
    (ts : List Token) : Passes ts (p.many ts).2 := by
  fun_induction p.many ts with
  | case1 ts hr => exact .refl ts
  | case2 ts a rest hr _ more ih => exact (h hr).trans ih

theorem passes_of_afterComma (h : ∀ {ts a rest}, p.read ts = some (a, rest) → Passes ts rest)
    {a : α} (hr : (Production.afterComma p).read ts = some (a, rest)) : Passes ts rest := by
  obtain ⟨us, hcomma, hread⟩ := Option.bind_eq_some_iff.1 hr
  exact (passes_of_punct? (by decide) hcomma).trans (h hread)

theorem passes_of_commaList? (h : ∀ {ts a rest}, p.read ts = some (a, rest) → Passes ts rest)
    (hr : commaList? p ts = some rest) : Passes ts rest := by
  obtain ⟨⟨a, us⟩, ha, hr⟩ := Option.bind_eq_some_iff.1 hr
  dsimp only at hr
  split at hr
  · cases hr
  · cases hr
    exact (h ha).trans (passes_of_many (passes_of_afterComma h) us)

end Lists

theorem passes_of_tableList {op : Operation} {xs : List TableRef}
    (h : tableList op ts = some (xs, rest)) : Passes ts rest := by
  obtain ⟨⟨x, us⟩, hx, h⟩ := Option.bind_eq_some_iff.1 h
  dsimp only at h
  split at h
  · cases h
    exact passes_of_tableRef hx
  · cases h
    exact (passes_of_tableRef hx).trans
      (passes_of_many (passes_of_afterComma (p := tables) passes_of_tableRef) us)

/-! ## The clauses that sort and limit -/

theorem passes_of_sortItem {directed : Bool} {u : Unit}
    (h : sortItem source directed ts = some (u, rest)) : Passes ts rest := by
  obtain ⟨us, hkey, heq⟩ := Option.map_eq_some_iff.1 h
  cases heq
  have hus : Passes ts us := by
    unfold sortKey at hkey
    split at hkey
    · cases hkey
      exact passes_of_number? (by assumption)
    · obtain ⟨⟨_, _⟩, hcolumn, rfl⟩ := Option.map_eq_some_iff.1 hkey
      exact passes_of_columnRef hcolumn
  split
  · refine hus.trans ?_
    unfold direction
    split
    · exact passes_of_keyword? (by assumption)
    · exact passes_of_getD "DESC" us
  · exact hus

theorem passes_of_byClause {word : String} {directed : Bool}
    (h : byClause source word directed ts = some rest) : Passes ts rest := by
  unfold byClause at h
  split at h
  · cases h
    exact .refl ts
  · rename_i us hby
    obtain ⟨vs, hword, hby⟩ := Option.bind_eq_some_iff.1 hby
    exact (passes_of_keyword? hword).trans ((passes_of_keyword? hby).trans
      (passes_of_commaList? (p := sortItems source directed) passes_of_sortItem h))

theorem passes_of_limitClause (h : limitClause ts = some rest) : Passes ts rest := by
  unfold limitClause at h
  split at h
  · cases h
    exact .refl ts
  · rename_i us hlimit
    obtain ⟨vs, hnumber, rfl⟩ := Option.map_eq_some_iff.1 h
    refine (passes_of_keyword? hlimit).trans ((passes_of_number? hnumber).trans ?_)
    generalize hbehind : (punct? ',' vs <|> keyword? "OFFSET" vs) = behind
    cases behind with
    | none => exact .refl vs
    | some ws =>
      have hws : Passes vs ws := by
        cases hcomma : punct? ',' vs with
        | some us =>
          rw [hcomma] at hbehind
          exact Option.some.inj hbehind ▸ passes_of_punct? (by decide) hcomma
        | none =>
          rw [hcomma] at hbehind
          exact passes_of_keyword? hbehind
      show Passes vs ((number? ws).getD vs)
      cases hsecond : number? ws with
      | none => exact .refl vs
      | some rest => exact hws.trans (passes_of_number? hsecond)

theorem passes_of_offsetClause (h : offsetClause ts = some rest) : Passes ts rest := by
  unfold offsetClause at h
  split at h
  · cases h
    exact .refl ts
  · exact (passes_of_keyword? (by assumption)).trans (passes_of_number? h)

theorem passes_of_afterClauses {clauses : List (List Token → Option (List Token))}
    (h : ∀ clause ∈ clauses, ∀ {ts rest}, clause ts = some rest → Passes ts rest)
    (ts : List Token) : Passes ts (afterClauses clauses ts) := by
  induction clauses generalizing ts with
  | nil => exact .refl ts
  | cons clause clauses ih =>
    unfold afterClauses
    split
    · exact .refl ts
    · rename_i rest hclause
      exact (h clause List.mem_cons_self hclause).trans
        (ih (fun c hc => h c (List.mem_cons_of_mem clause hc)) rest)

theorem passes_of_tail (source : Text) (ts : List Token) : Passes ts (tail source ts) := by
  refine passes_of_afterClauses ?_ ts
  intro clause hclause ts rest h
  simp only [List.mem_cons, List.not_mem_nil, or_false] at hclause
  rcases hclause with rfl | rfl | rfl | rfl
  · exact passes_of_byClause h
  · exact passes_of_byClause h
  · exact passes_of_limitClause h
  · exact passes_of_offsetClause h

end Productions

/-! ## The spans of the WHERE clause -/

section Spans

variable {ts rest s : List Token} {t : Token} {w : Spans}

theorem not_isPunct_of_connects? {c : Connector} (h : connects? t = some c) :
    t.isPunct ';' = false := by
  cases hkind : t.kind with
  | punct =>
    have hword : ∀ word, t.isKeyword word = false := fun word =>
      not_isKeyword_of_kind (by rw [hkind]; decide)
    have hoperator : ∀ symbol, t.isOperator symbol = false := fun symbol => by
      unfold Token.isOperator
      rw [hkind]
      rfl
    unfold connects? at h
    simp only [hword, hoperator] at h
    cases h
  | _ => exact not_isPunct_of_kind (by rw [hkind]; decide)

/-- A semicolon in a span is never the last token, which ends the span. -/
theorem ne_nil_of_span (h : span ts = .ok (s, rest)) {a b : List Token} (hs : s = a ++ t :: b)
    (ht : t.isPunct ';' = true) : b ++ rest ≠ [] := by
  induction ts generalizing s a with
  | nil =>
    cases h
    simp at hs
  | cons u ts ih =>
    unfold span at h
    split at h
    · cases h
    split at h
    · cases h
      simp at hs
    · rename_i hend
      obtain ⟨p, hp, heq⟩ := map_eq_ok.1 h
      cases heq
      cases a with
      | cons d a => exact ih hp (List.cons.inj hs).2
      | nil =>
        obtain ⟨rfl, rfl⟩ := List.cons.inj hs
        rw [append_of_span hp]
        rintro rfl
        unfold endsSpan at hend
        simp [ht] at hend

/-- The tokens of a clause hold no semicolons but those of the spans, and these are not the last
token of the query. -/
def Spread (ts : List Token) (w : Spans) : Prop :=
  ∃ us, ts = us ++ w.rest ∧ (∀ t ∈ us, t.isPunct ';' = true → ∃ s ∈ w.spans, t ∈ s) ∧
    ∀ s ∈ w.spans, ∀ t ∈ s, t.isPunct ';' = true → ∃ a b, ts = a ++ t :: b ∧ b ≠ []

theorem Spread.none (ts : List Token) (usesOr : Bool) : Spread ts ⟨[], usesOr, ts⟩ :=
  ⟨[], rfl, by simp, by simp⟩

theorem Spread.span {us : List Token} (ht : t.isPunct ';' = false) (hs : span us = .ok (s, rest))
    (h : Spread rest w) (usesOr : Bool) : Spread (t :: us) ⟨s :: w.spans, usesOr, w.rest⟩ := by
  obtain ⟨vs, hvs, hin, hlast⟩ := h
  have hus := append_of_span hs
  refine ⟨t :: (s ++ vs), ?_, ?_, ?_⟩
  · rw [List.cons_append, List.append_assoc, ← hvs, hus]
  · intro x hx hsemi
    rcases List.mem_cons.1 hx with rfl | hx
    · rw [ht] at hsemi
      cases hsemi
    rcases List.mem_append.1 hx with hx | hx
    · exact ⟨s, List.mem_cons_self, hx⟩
    · obtain ⟨u, hu, hxu⟩ := hin x hx hsemi
      exact ⟨u, List.mem_cons_of_mem s hu, hxu⟩
  · intro u hu x hx hsemi
    rcases List.mem_cons.1 hu with rfl | hu
    · obtain ⟨a, b, rfl⟩ := List.append_of_mem hx
      exact ⟨t :: a, b ++ rest, by simp [← hus], ne_nil_of_span hs rfl hsemi⟩
    · obtain ⟨a, b, hrest, hb⟩ := hlast u hu x hx hsemi
      exact ⟨t :: (s ++ a), b, by simp [← hus, hrest], hb⟩

theorem Cuts.spread (h : Cuts ts w) : Spread ts w := by
  induction h with
  | stop ts => exact .none ts false
  | dangling hc us => exact .none _ _
  | more hc hs _ ih => exact ih.span (not_isPunct_of_connects? hc) hs _

theorem spread_of_whereSpans (h : whereSpans ts = .ok w) : Spread ts w := by
  rcases whereSpans_eq_ok h with ⟨-, rfl⟩ | ⟨us, hwhere, rfl | ⟨u, s, rest, more, hs, hcuts, rfl⟩⟩
  · exact .none ts false
  · obtain ⟨as, rfl, has⟩ := passes_of_keyword? hwhere
    refine ⟨as, rfl, ?_, by simp⟩
    intro t ht hsemi
    rw [has t ht] at hsemi
    cases hsemi
  · obtain ⟨p, rfl, hp⟩ := exists_of_keyword? hwhere
    exact hcuts.spread.span (not_isPunct_of_isKeyword hp) hs
      more.usesOr

end Spans

/-! ## Statements -/

section Statements

variable {source : Text} {ts rest : List Token} {r : Reading}

/-- A read of some table, from its `FROM` on. -/
theorem passes_of_readTables (h : readTables source .select ts = .ok r) (hr : r.tables ≠ []) :
    ∃ us w, conditionsOfTables source .select ts = some us ∧ Passes ts us ∧
      whereSpans us = .ok w ∧ r.rest = tail source w.rest := by
  unfold conditionsOfTables
  rcases readTables_eq_ok h with ⟨-, rfl⟩ |
    ⟨first, us, hlist, ⟨hop, -⟩ | ⟨rest, hrest, hconditions⟩⟩
  · exact absurd rfl hr
  · cases hop
  · obtain ⟨w, hw, rfl⟩ := readConditions_eq_ok hconditions
    cases hrest
    rw [hlist]
    exact ⟨_, w, rfl,
      (passes_of_tableList hlist).trans (passes_of_many (p := joins source) passes_of_join us), hw,
      rfl⟩

end Statements

end TypedMirror.Grammar

namespace TypedMirror

namespace Token

/-- No semicolon, or one at the end. -/
def IsSingle (ts : List Token) : Prop :=
  ∀ a t b, ts = a ++ t :: b → t.isPunct ';' = true → b = []

theorem isSingle_append {ts last : List Token} (hts : ∀ t ∈ ts, t.isPunct ';' = false)
    (hlast : Grammar.isFinished last = true) : IsSingle (ts ++ last) := by
  intro a t b h hsemi
  have hnot : t ∉ ts := by
    intro ht
    rw [hts t ht] at hsemi
    cases hsemi
  rcases List.append_eq_append_iff.1 h with ⟨x, rfl, hx⟩ | ⟨x, rfl, hx⟩
  · rw [hx] at hlast
    rcases x with _ | ⟨c, x⟩
    · cases b with
      | nil => rfl
      | cons d b => cases hlast
    · cases x <;> cases hlast
  · cases x with
    | nil =>
      rw [List.nil_append] at hx
      rw [← hx] at hlast
      cases b with
      | nil => rfl
      | cons d b => cases hlast
    | cons c x =>
      obtain ⟨rfl, -⟩ := List.cons.inj hx
      exact absurd (by simp) hnot

theorem IsSingle.not_isPunct {a b : List Token} {t : Token} (h : IsSingle (a ++ t :: b))
    (hb : b ≠ []) : t.isPunct ';' = false := by
  rw [← Bool.not_eq_true]
  exact fun hsemi => hb (h a t b rfl hsemi)

end Token

namespace Grammar

/-- Behind tokens that hold no semicolon, a WHERE clause and what sorts and limits the rows are a
single statement if the spans of the clause hold none. -/
theorem Spread.isSingle_iff {source : Text} {head ts : List Token} {w : Spans} (h : Spread ts w)
    (hhead : ∀ t ∈ head, t.isPunct ';' = false)
    (hfinished : isFinished (tail source w.rest) = true) :
    Token.IsSingle (head ++ ts) ↔ ∀ s ∈ w.spans, ∀ t ∈ s, t.isPunct ';' = false := by
  obtain ⟨us, rfl, hin, hlast⟩ := h
  constructor
  · intro hsingle s hs t ht
    rw [← Bool.not_eq_true]
    intro hsemi
    obtain ⟨a, b, hab, hb⟩ := hlast s hs t ht hsemi
    rw [hab, ← List.append_assoc] at hsingle
    rw [hsingle.not_isPunct hb] at hsemi
    cases hsemi
  · intro hspans
    have hus : ∀ t ∈ us, t.isPunct ';' = false := by
      intro t ht
      rw [← Bool.not_eq_true]
      intro hsemi
      obtain ⟨s, hs, hts⟩ := hin t ht hsemi
      rw [hspans s hs t hts] at hsemi
      cases hsemi
    -- nothing but the end of the query is left for a semicolon
    obtain ⟨xs, hxs, hclean⟩ := passes_of_tail source w.rest
    rw [hxs, ← List.append_assoc, ← List.append_assoc]
    exact Token.isSingle_append
      (List.forall_mem_append.2 ⟨List.forall_mem_append.2 ⟨hhead, hus⟩, hclean⟩) hfinished

end Grammar

namespace Routing

open Grammar

/-- The tokens of a query that is redirected are those of a single statement exactly if there is no
semicolon in front of its `FROM` and none in a span of its WHERE clause.  One that stands anywhere
else, the end apart, keeps the query from being read. -/
theorem isSingle_iff_of_routes {mirrors : List Mirror} {query : Text}
    (h : (decision mirrors query).routes ≠ []) :
    ∃ first skipped f rest us w,
      Token.read (Deflated.ofQuery query).query = first :: (skipped ++ f :: rest) ∧
      first.isKeyword "SELECT" = true ∧ f.isKeyword "FROM" = true ∧
      skipToFrom 0 (skipped ++ f :: rest) = .ok (some rest) ∧
      Query.conditions? query = some us ∧ whereSpans us = .ok w ∧
      (Token.IsSingle (Token.read (Deflated.ofQuery query).query) ↔
        (∀ t ∈ skipped, t.isPunct ';' = false) ∧
          ∀ s ∈ w.spans, ∀ t ∈ s, t.isPunct ';' = false) := by
  obtain ⟨q, hq, hfull, hread, -, hdecision⟩ := decision_of_routes h
  have htables : q.tables ≠ [] := tables_ne_nil (by rwa [hdecision] at h)
  rcases Query.parse_eq_ok hq with ⟨-, rfl⟩ | ⟨op, ts, r, hop, hr, rfl⟩
  · cases hfull
  obtain rfl : op = .select := Option.some.inj hread
  obtain ⟨first, htokens, hfirst⟩ := exists_select hop
  rcases readStatement_eq_ok hr with ⟨-, -, rfl⟩ | ⟨-, rest, hskip, hreading⟩ | ⟨hupdate, -⟩
  · exact absurd rfl htables
  · obtain ⟨skipped, f, rfl, hf⟩ := exists_of_skipToFrom hskip
    obtain ⟨us, w, hus, ⟨as, rfl, has⟩, hw, hrest⟩ := passes_of_readTables hreading htables
    have hconditions : Query.conditions? query = some us := by
      simp only [Query.conditions?, hop, Option.bind_some, conditionsOf, hskip, hus, reduceCtorEq,
        if_false]
    refine ⟨first, skipped, f, as ++ us, us, w, htokens, hfirst, hf, hskip, hconditions, hw, ?_⟩
    have hhead : (∀ t ∈ skipped, t.isPunct ';' = false) →
        ∀ t ∈ first :: (skipped ++ f :: as), t.isPunct ';' = false := fun hskipped =>
      List.forall_mem_cons.2 ⟨not_isPunct_of_isKeyword hfirst, List.forall_mem_append.2
        ⟨hskipped, List.forall_mem_cons.2 ⟨not_isPunct_of_isKeyword hf, has⟩⟩⟩
    have hspread := fun hskipped => (spread_of_whereSpans hw).isSingle_iff (hhead hskipped)
      (hrest ▸ (Bool.and_eq_true_iff.1 hfull).1)
    have hall : first :: (skipped ++ f :: (as ++ us)) = first :: (skipped ++ f :: as) ++ us := by
      simp
    rw [htokens]
    constructor
    · intro hsingle
      have hskipped : ∀ t ∈ skipped, t.isPunct ';' = false := by
        intro t ht
        obtain ⟨a, b, rfl⟩ := List.append_of_mem ht
        rw [List.append_assoc, List.cons_append] at hsingle
        exact Token.IsSingle.not_isPunct (a := first :: a) hsingle (by simp)
      exact ⟨hskipped, (hspread hskipped).1 (hall ▸ hsingle)⟩
    · rintro ⟨hskipped, hspans⟩
      exact hall ▸ (hspread hskipped).2 hspans
  · cases hupdate

/-- A mirror of all metadata of posts. -/
def postmeta : Mirror where
  id := "wp_postmeta_mm_varchar_16".toList
  source := "wp_postmeta".toList
  idColumn := "meta_id".toList
  objectColumn := "post_id".toList
  keyColumn := "meta_key".toList
  valueColumn := "meta_value".toList
  valueType := .varchar
  typeArgs := [16]
  whitelist := []

/-- A removal of rows behind a semicolon is sent to the mirror. -/
theorem redirected_write :
    let query := "SELECT 1; DELETE FROM wp_postmeta".toList
    (decision [postmeta] query).routes ≠ [] ∧
      apply [postmeta] query = "SELECT 1; DELETE FROM wp_postmeta_mm_varchar_16".toList ∧
      ¬ Token.IsSingle (Token.read (Deflated.ofQuery query).query) := by
  refine ⟨by decide +kernel, by decide +kernel, ?_⟩
  intro h
  have htokens : Token.read (Deflated.ofQuery "SELECT 1; DELETE FROM wp_postmeta".toList).query =
      [⟨.word, "SELECT".toList, 0⟩, ⟨.number, "1".toList, 7⟩] ++ ⟨.punct, ";".toList, 8⟩ ::
        [⟨.word, "DELETE".toList, 10⟩, ⟨.word, "FROM".toList, 17⟩,
          ⟨.word, "wp_postmeta".toList, 22⟩] := by decide +kernel
  cases h _ _ _ htokens (by decide)

/-- A read with a WHERE clause and a semicolon at its end is a single statement. -/
theorem isSingle_iff_of_routes_sample :
    let query := "SELECT * FROM wp_postmeta WHERE post_id = 7;".toList
    (decision [postmeta] query).routes ≠ [] ∧
      Token.IsSingle (Token.read (Deflated.ofQuery query).query) := by
  have hroutes : (decision [postmeta]
      "SELECT * FROM wp_postmeta WHERE post_id = 7;".toList).routes ≠ [] := by decide +kernel
  -- Nothing but the last token is a semicolon, and no span has it.
  have hread : ∀ t ∈ (Token.read (Deflated.ofQuery
      "SELECT * FROM wp_postmeta WHERE post_id = 7;".toList).query).dropLast,
        t.isPunct ';' = false := by decide +kernel
  have hspans : (Query.conditions? "SELECT * FROM wp_postmeta WHERE post_id = 7;".toList).any
      fun us => (whereSpans us).toOption.any (·.spans.all (·.all (!·.isPunct ';'))) := by
    decide +kernel
  obtain ⟨first, skipped, f, rest, us, w, htokens, -, -, -, hus, hw, hsingle⟩ :=
    isSingle_iff_of_routes hroutes
  refine ⟨hroutes, hsingle.2 ⟨?_, ?_⟩⟩
  · intro t ht
    rw [htokens, List.dropLast_cons_of_ne_nil (by simp),
      List.dropLast_append_of_ne_nil (List.cons_ne_nil f rest)] at hread
    exact hread t (by simp [ht])
  · rw [hus, Option.any_some, hw] at hspans
    simpa [Except.toOption] using hspans

end Routing

end TypedMirror
