import TypedMirror.Proofs.Formula
import TypedMirror.Proofs.Reading

/-!
# Predicates as conjuncts

A predicate is recorded for a span of the WHERE clause with no parenthesis open before it.  The span
need not be a conjunct of the clause: a connector may also stand inside `CASE … END` or belong to a
`BETWEEN`, and a span may open what it does not close.

* `whole_iff` — a span is an operand of the clause just if nothing is open before and after it;
* `recorded_are_conjuncts_iff` — when all predicates of a query are conjuncts of its WHERE clause;
* `recorded_in_case` — a query of which one is not.
-/

namespace TypedMirror

namespace Grammar

/-! ## The spans of a clause -/

theorem connects?_of_mem_span {ts s rest : List Token} (h : span ts = .ok (s, rest)) :
    ∀ t ∈ s, connects? t = none := by
  induction ts generalizing s with
  | nil =>
    cases h
    simp
  | cons t ts ih =>
    unfold span at h
    split at h
    · cases h
    · split at h
      · cases h
        simp
      · rename_i hend
        obtain ⟨p, hs, heq⟩ := map_eq_ok.1 h
        cases heq
        intro u hu
        rcases List.mem_cons.1 hu with rfl | hu
        · unfold endsSpan at hend
          simp only [Bool.or_eq_true, not_or] at hend
          simpa using hend.1.1.1
        · exact ih hs u hu

/-- What follows a span: no further one, or a conjunction and further ones. -/
def Follows (w : Spans) (ts : List Token) : Prop :=
  (w.spans = [] ∧ ts = w.rest) ∨
    ∃ c W, isConjunction c = true ∧ Chain w.spans W ∧ ts = c :: W ++ w.rest

theorem Follows.chain {w : Spans} {ts s : List Token} (h : Follows w ts) :
    ∃ W, Chain (s :: w.spans) W ∧ s ++ ts = W ++ w.rest := by
  rcases h with ⟨hs, rfl⟩ | ⟨c, W, hc, hW, rfl⟩
  · rw [hs]
    exact ⟨s, .last s, rfl⟩
  · exact ⟨s ++ c :: W, .more s hc hW, by simp⟩

theorem Cuts.follows {ts : List Token} {w : Spans} (h : Cuts ts w) (hor : w.usesOr = false) :
    Follows w ts ∧ ∀ s ∈ w.spans, ∀ t ∈ s, connects? t = none := by
  induction h with
  | stop ts => exact ⟨.inl ⟨rfl, rfl⟩, by simp⟩
  | dangling hc us => exact ⟨.inl ⟨rfl, rfl⟩, by simp⟩
  | @more t u us s rest c w hc hs h ih =>
    simp only [Bool.or_eq_false_iff, decide_eq_false_iff_not] at hor
    obtain ⟨hfollows, hspans⟩ := ih hor.2
    obtain ⟨W, hW, hrest⟩ := hfollows.chain (s := u :: s)
    refine ⟨.inr ⟨t, W, ?_, hW, ?_⟩, ?_⟩
    · unfold isConjunction
      rw [hc]
      cases c with
      | conjunction => rfl
      | disjunction => exact absurd rfl hor.1
    · rw [← append_of_span hs]
      exact congrArg (t :: ·) hrest
    · intro x hx
      rcases List.mem_cons.1 hx with rfl | hx
      · exact connects?_of_mem_span hs
      · exact hspans x hx

/-- Without disjunctions a clause is the chain of its spans. -/
theorem chain_of_whereSpans {ts us : List Token} {w : Spans} (hw : keyword? "WHERE" ts = some us)
    (h : whereSpans ts = .ok w) (hor : w.usesOr = false) :
    (∀ s ∈ w.spans, ∀ t ∈ s, connects? t = none) ∧
      (w.spans ≠ [] → ∃ W, Chain w.spans W ∧ us = W ++ w.rest) := by
  rcases whereSpans_eq_ok h with ⟨hnone, -⟩ | ⟨us', hwhere, rfl | ⟨u, s, rest, more, hs, hcuts, rfl⟩⟩
  · rw [hw] at hnone
    cases hnone
  · exact ⟨by simp, by simp⟩
  · obtain rfl : us = us' := Option.some.inj (hw.symm.trans hwhere)
    obtain ⟨hfollows, hspans⟩ := hcuts.follows hor
    obtain ⟨W, hW, hrest⟩ := hfollows.chain (s := u :: s)
    refine ⟨?_, fun _ => ⟨W, hW, by rw [← append_of_span hs, hrest]⟩⟩
    intro x hx
    rcases List.mem_cons.1 hx with rfl | hx
    · exact connects?_of_mem_span hs
    · exact hspans x hx

/-! ## Spans and operands -/

/-- A span that a predicate has been recorded for, and the spans before it. -/
structure Spot where
  before : List (List Token)
  span : List Token
  predicate : Predicate
deriving DecidableEq, Repr

/-- The spots of the predicates, `depth` parentheses being open before the first span. -/
def spotsFrom (source : Text) (depth : Int) (before : List (List Token)) :
    List (List Token) → List Spot
  | [] => []
  | s :: ss =>
    (if depth = 0 then (predicate? source s).toList.map (⟨before, s, ·⟩) else [])
      ++ spotsFrom source (depth + balance s) (before ++ [s]) ss

def spots (source : Text) (ss : List (List Token)) : List Spot := spotsFrom source 0 [] ss

theorem predicates_spotsFrom (source : Text) (depth : Int) (before ss : List (List Token)) :
    (spotsFrom source depth before ss).map (·.predicate) = predicatesFrom source depth ss := by
  induction ss generalizing depth before with
  | nil => rfl
  | cons s ss ih =>
    rw [spotsFrom, predicatesFrom, List.map_append, ih]
    congr 1
    by_cases hd : depth = 0
    · rw [if_pos hd, if_pos hd, List.map_map]
      exact List.map_id' _
    · rw [if_neg hd, if_neg hd]
      rfl

theorem mem_spotsFrom {source : Text} {depth : Int} {before ss : List (List Token)} {x : Spot}
    (h : x ∈ spotsFrom source depth before ss) : predicate? source x.span = some x.predicate ∧
      ∃ ss₁ ss₂, ss = ss₁ ++ x.span :: ss₂ ∧ x.before = before ++ ss₁ := by
  induction ss generalizing depth before with
  | nil => cases h
  | cons s ss ih =>
    rcases List.mem_append.1 h with h | h
    · split at h
      · obtain ⟨p, hp, rfl⟩ := List.mem_map.1 h
        exact ⟨Option.mem_toList.1 hp, [], ss, rfl, (List.append_nil before).symm⟩
      · cases h
    · obtain ⟨hp, ss₁, ss₂, rfl, hb⟩ := ih h
      exact ⟨hp, s :: ss₁, ss₂, rfl, by rw [hb, List.append_assoc]; rfl⟩

/-- The span is an operand, in the place where it stands. -/
def Whole (os : List (List Token)) (x : Spot) : Prop :=
  ∃ os₁ os₂, os = os₁ ++ x.span :: os₂ ∧ Chain.extent os₁ = Chain.extent x.before

/-- Nothing is open in front of the connector before the span, nor behind the span if nothing was
before it. -/
def Apart (W : List Token) (x : Spot) : Prop :=
  openAfter [] (W.take (Chain.extent x.before - 1)) = some [] ∧ openAfter [] x.span = some []

section Whole

variable {ss os : List (List Token)} {s W : List Token}

/-- A first span that closes what it opens is the first operand. -/
theorem exists_eq_cons (hss : Chain (s :: ss) W) (hs : ∀ t ∈ s, isConjunction t = false)
    (hos : Chain os W) (hsolid : ∀ o ∈ os, isSolid [] o = true) (hopen : openAfter [] s = some []) :
    ∃ os', os = s :: os' := by
  cases hss with
  | last => exact ⟨[], hos.eq_singleton hs⟩
  | more _ hc _ =>
    obtain ⟨os₁, os₂, rfl, h₁, -⟩ := hos.split hsolid hc hopen
    rw [h₁.eq_singleton hs]
    exact ⟨os₂, rfl⟩

theorem whole_iff {x : Spot} (hss : Chain (x.before ++ x.span :: ss) W)
    (hx : ∀ t ∈ x.span, isConjunction t = false) (hos : Chain os W)
    (hsolid : ∀ o ∈ os, isSolid [] o = true) : Whole os x ↔ Apart W x := by
  constructor
  · rintro ⟨os₁, os₂, rfl, hextent⟩
    refine ⟨?_, openAfter_of_isSolid (hsolid x.span (by simp))⟩
    rw [← hextent]
    by_cases h₁ : os₁ = []
    · subst h₁
      rfl
    · obtain ⟨a, c, b, rfl, ha, -, -⟩ := hos.of_append h₁ (List.cons_ne_nil _ _)
      rw [ha.extent_eq, Nat.add_sub_cancel, List.take_left']
      · exact ha.openAfter_eq fun o ho => hsolid o (List.mem_append_left _ ho)
      · rfl
  · rintro ⟨hbefore, hopen⟩
    by_cases hb : x.before = []
    · rw [hb] at hss
      obtain ⟨os', rfl⟩ := exists_eq_cons hss hx hos hsolid hopen
      exact ⟨[], os', rfl, by rw [hb]⟩
    · obtain ⟨a, c, b, rfl, ha, hc, hrest⟩ := hss.of_append hb (List.cons_ne_nil _ _)
      rw [ha.extent_eq, Nat.add_sub_cancel, List.take_left' rfl] at hbefore
      obtain ⟨os₁, os₂, rfl, h₁, h₂⟩ := hos.split hsolid hc hbefore
      obtain ⟨os', rfl⟩ := exists_eq_cons hrest hx h₂
        (fun o ho => hsolid o (List.mem_append_right _ ho)) hopen
      exact ⟨os₁, os', rfl, h₁.extent_eq.trans ha.extent_eq.symm⟩

end Whole

theorem first_of_isIdentifier {t : Token} (h : isIdentifier t = true) :
    t.isKeyword "NOT" = false ∧ t.isPunct '(' = false := by
  unfold isIdentifier at h
  cases hk : t.kind with
  | quotedName => exact ⟨not_isKeyword_of_kind (by simp [hk]), not_isPunct_of_kind (by simp [hk])⟩
  | word =>
    refine ⟨?_, not_isPunct_of_kind (by simp [hk])⟩
    rw [← Bool.not_eq_true]
    intro hnot
    have hreserved : isReserved t = true := List.any_eq_true.2 ⟨"NOT", by decide, hnot⟩
    rw [hk] at h
    simp [hreserved] at h
  | literal | number | operator | punct | comment | other =>
    rw [hk] at h
    cases h

/-- A recorded span starts with the name of a column. -/
theorem first_of_predicate {source : Text} {s : List Token} {p : Predicate}
    (h : predicate? source s = some p) :
    ∀ t ∈ s.head?, t.isKeyword "NOT" = false ∧ t.isPunct '(' = false := by
  intro t ht
  cases s with
  | nil => cases ht
  | cons u s =>
    cases ht
    apply first_of_isIdentifier
    obtain ⟨⟨column, rest⟩, hcolumn, -⟩ := Option.bind_eq_some_iff.1 h
    by_cases hid : isIdentifier t = true
    · exact hid
    · rw [columnRef, if_neg hid] at hcolumn
      cases hcolumn

/-! ## The WHERE clause of a query -/

/-- The tokens that the conditions of a statement are read from, once its tables have been read. -/
def conditionsOfTables (source : Text) (op : Operation) (ts : List Token) : Option (List Token) := do
  let (_, ts) ← tableList op ts
  let rest := ((joins source).many ts).2
  if op = .update then setClause source rest else some rest

def conditionsOf (source : Text) (op : Operation) (ts : List Token) : Option (List Token) :=
  if op = .update then conditionsOfTables source op ts
  else
    match skipToFrom 0 ts with
    | .ok (some rest) => conditionsOfTables source op rest
    | _ => none

end Grammar

/-- The tokens of a query from the WHERE clause on. -/
def Query.conditions? (query : Text) : Option (List Token) :=
  let deflated := (Deflated.ofQuery query).query
  (Grammar.operation? (Token.read deflated)).bind fun p => Grammar.conditionsOf deflated p.1 p.2

namespace Grammar

variable {source : Text} {op : Operation} {ts : List Token} {r : Reading}

/-- The predicates are read from the clause if the reading comes as far as that. -/
def ReadsConditions (source : Text) (r : Reading) (conditions : Option (List Token)) : Prop :=
  (conditions = none ∧ r.predicates = [] ∧ r.usesOr = false) ∨
    ∃ us w, conditions = some us ∧ whereSpans us = .ok w ∧
      r.predicates = predicatesFrom source 0 w.spans ∧ r.usesOr = w.usesOr ∧
      r.rest = tail source w.rest

theorem readsConditions_of_readConditions {tables : List TableRef} {joins : List Join}
    (h : readConditions source tables joins ts = .ok r) : ReadsConditions source r (some ts) := by
  obtain ⟨w, hw, rfl⟩ := readConditions_eq_ok h
  exact .inr ⟨ts, w, rfl, hw, rfl, rfl, rfl⟩

theorem readsConditions_of_readTables (h : readTables source op ts = .ok r) :
    ReadsConditions source r (conditionsOfTables source op ts) := by
  unfold conditionsOfTables
  rcases readTables_eq_ok h with ⟨hlist, rfl⟩ |
    ⟨first, us, hlist, ⟨hop, hset, rfl⟩ | ⟨rest, hrest, hconditions⟩⟩
  · rw [hlist]
    exact .inl ⟨rfl, rfl, rfl⟩
  · rw [hlist]
    exact .inl ⟨(if_pos hop).trans hset, rfl, rfl⟩
  · rw [hlist]
    show ReadsConditions source r (if op = .update then setClause source _ else some _)
    rw [hrest]
    exact readsConditions_of_readConditions hconditions

theorem readsConditions_of_readStatement (h : readStatement source op ts = .ok r) :
    ReadsConditions source r (conditionsOf source op ts) := by
  unfold conditionsOf
  rcases readStatement_eq_ok h with ⟨hop, hskip, rfl⟩ | ⟨hop, rest, hskip, hr⟩ | ⟨hop, hr⟩
  · rw [if_neg hop, hskip]
    exact .inl ⟨rfl, rfl, rfl⟩
  · rw [if_neg hop, hskip]
    exact readsConditions_of_readTables hr
  · rw [if_pos hop]
    exact readsConditions_of_readTables hr

/-- The tokens of the WHERE clause of a query, and the spans that they are cut into. -/
def IsClause (query : Text) (ss : List (List Token)) (W : List Token) : Prop :=
  ∃ ts us w, Query.conditions? query = some ts ∧ keyword? "WHERE" ts = some us ∧
    whereSpans ts = .ok w ∧ ss = w.spans ∧ us = W ++ w.rest

variable {query : Text} {q : Query}

/-- Behind the clause only what sorts and limits is read. -/
theorem readsConditions_to_end (h : Query.parse query = .ok q) :
    (Query.conditions? query = none ∧ q.predicates = [] ∧ q.usesOr = false) ∨
      ∃ us w, Query.conditions? query = some us ∧ whereSpans us = .ok w ∧
        q.predicates = predicatesFrom (Deflated.ofQuery query).query 0 w.spans ∧
        q.usesOr = w.usesOr ∧
        (q.fullyParsed = true → isFinished (tail (Deflated.ofQuery query).query w.rest) = true) := by
  rcases Query.parse_eq_ok h with ⟨hop, rfl⟩ | ⟨op, rest, r, hop, hr, rfl⟩
  · refine .inl ⟨?_, rfl, rfl⟩
    simp only [Query.conditions?, hop, Option.bind_none]
  · have hconditions : Query.conditions? query =
        conditionsOf (Deflated.ofQuery query).query op rest := by
      simp only [Query.conditions?, hop, Option.bind_some]
    rw [hconditions]
    refine (readsConditions_of_readStatement hr).imp_right ?_
    rintro ⟨us, w, hus, hw, hpred, hor, hrest⟩
    exact ⟨us, w, hus, hw, hpred, hor, fun hfull => hrest ▸ (Bool.and_eq_true_iff.1 hfull).1⟩

theorem readsConditions_of_parse (h : Query.parse query = .ok q) :
    (Query.conditions? query = none ∧ q.predicates = []) ∨
      ∃ us w, Query.conditions? query = some us ∧ whereSpans us = .ok w ∧
        q.predicates = predicatesFrom (Deflated.ofQuery query).query 0 w.spans ∧
        q.usesOr = w.usesOr := by
  rcases readsConditions_to_end h with ⟨hus, hpred, -⟩ | ⟨us, w, hus, hw, hpred, hor, -⟩
  · exact .inl ⟨hus, hpred⟩
  · exact .inr ⟨us, w, hus, hw, hpred, hor⟩

/-- Without a WHERE clause there are no predicates. -/
theorem exists_isClause (h : Query.parse query = .ok q) (hor : q.usesOr = false)
    (hp : q.predicates ≠ []) : ∃ ss W, IsClause query ss W := by
  rcases readsConditions_of_parse h with ⟨-, hnone⟩ | ⟨us, w, hus, hw, hpred, hw'⟩
  · exact absurd hnone hp
  · cases hwhere : keyword? "WHERE" us with
    | none =>
      unfold whereSpans at hw
      simp only [hwhere] at hw
      cases hw
      exact absurd hpred hp
    | some rest =>
      have hspans : w.spans ≠ [] := by
        intro hnil
        rw [hnil] at hpred
        exact hp hpred
      obtain ⟨W, -, hW⟩ := (chain_of_whereSpans hwhere hw (hw' ▸ hor)).2 hspans
      exact ⟨w.spans, W, us, rest, w, hus, hwhere, hw, rfl, hW⟩

/-- If a query holds no disjunction and its WHERE clause can be read as a boolean expression, then its
predicates are operands of the expression exactly if, in front of the connector before each of them,
no parenthesis, `CASE` or `BETWEEN` is open, and each closes what it opens.  What is an operand holds
whenever the expression does. -/
theorem recorded_are_conjuncts_iff (h : Query.parse query = .ok q) (hor : q.usesOr = false) :
    (q.predicates ≠ [] → ∃ ss W, IsClause query ss W) ∧ ∀ ss W, IsClause query ss W →
      q.predicates = (spots (Deflated.ofQuery query).query ss).map (·.predicate) ∧
      ∀ f : Formula, f.wellFormed = true → f.tokens = W →
        ((∀ x ∈ spots (Deflated.ofQuery query).query ss, Whole f.operands x) ↔
          ∀ x ∈ spots (Deflated.ofQuery query).query ss, Apart W x) ∧
        ∀ x ∈ spots (Deflated.ofQuery query).query ss, Whole f.operands x →
          ∀ v, f.truth v = true → v x.span = true := by
  refine ⟨exists_isClause h hor, ?_⟩
  rintro ss W ⟨ts, us, w, hts, hwhere, hw, rfl, hus⟩
  obtain ⟨w', hw', hpred, hor'⟩ : ∃ w', whereSpans ts = .ok w' ∧
      q.predicates = predicatesFrom (Deflated.ofQuery query).query 0 w'.spans ∧
      q.usesOr = w'.usesOr := by
    rcases readsConditions_of_parse h with ⟨hnone, -⟩ | ⟨us', w', hus', hw', hpred, hor'⟩
    · rw [hts] at hnone
      cases hnone
    · obtain rfl : ts = us' := Option.some.inj (hts.symm.trans hus')
      exact ⟨w', hw', hpred, hor'⟩
  obtain rfl : w = w' := Except.ok.inj (hw.symm.trans hw')
  obtain ⟨hplain, hchain⟩ := chain_of_whereSpans hwhere hw (hor' ▸ hor)
  refine ⟨hpred.trans (predicates_spotsFrom _ 0 [] w.spans).symm, ?_⟩
  rintro f hf rfl
  have hwhole : ∀ x ∈ spots (Deflated.ofQuery query).query w.spans,
      (Whole f.operands x ↔ Apart f.tokens x) := by
    intro x hx
    obtain ⟨-, ss₁, ss₂, hss, hbefore⟩ := mem_spotsFrom hx
    obtain ⟨W, hW, hus'⟩ := hchain (by rw [hss]; simp)
    obtain rfl : f.tokens = W := List.append_cancel_right (hus.symm.trans hus')
    rw [hss, ← List.nil_append ss₁, ← hbefore] at hW
    refine whole_iff hW ?_ (Formula.chain_operands hf) (Formula.solid_operands hf)
    intro t ht
    have := hplain x.span (by rw [hss]; simp) t ht
    unfold isConjunction
    rw [this]
    rfl
  refine ⟨?_, ?_⟩
  · constructor
    · exact fun hall x hx => (hwhole x hx).1 (hall x hx)
    · exact fun hall x hx => (hwhole x hx).2 (hall x hx)
  · rintro x hx ⟨os₁, os₂, hos, -⟩ v hv
    exact Formula.truth_of_mem_operands hf hv (by rw [hos]; simp)
      (first_of_predicate (mem_spotsFrom hx).1)

/-- A comparison between two conjunctions inside a `CASE` is recorded.  The condition can hold
without it. -/
theorem recorded_in_case :
    let query :=
      "SELECT * FROM t WHERE CASE WHEN a = 1 AND b = 2 AND c THEN 1 ELSE 1 END".toList
    let W := (Token.read (Deflated.ofQuery query).query).drop 5
    let ss := [W.take 5, (W.drop 6).take 3, W.drop 10]
    let f := Formula.atom W
    ∃ q x, Query.parse query = .ok q ∧ q.fullyParsed = true ∧ q.usesOr = false ∧
      IsClause query ss W ∧ f.wellFormed = true ∧ f.tokens = W ∧
      x ∈ spots (Deflated.ofQuery query).query ss ∧ x.predicate ∈ q.predicates ∧
      ¬ Whole f.operands x ∧ ∃ v, f.truth v = true ∧ v x.span = false := by
  intro query W ss f
  have hclause : IsClause query ss W := by
    refine ⟨(Token.read (Deflated.ofQuery query).query).drop 4, W, ⟨ss, false, []⟩, ?_, ?_,
      eq_ok_of_toOption ?_, rfl, (List.append_nil W).symm⟩ <;> decide +kernel
  have hne : (W.drop 6).take 3 ≠ W := by decide +kernel
  let p : Predicate := ⟨⟨none, "b".toList, "b".toList, 42⟩, .eq, .other "2".toList⟩
  let template := ("SELECT * FROM [[table:t]] WHERE " ++
    "CASE WHEN a = 1 AND [[column:b]] = 2 AND c THEN 1 ELSE 1 END").toList
  let q : Query :=
    ⟨some .select, [⟨"t".toList, none, 14⟩], [], [p], false, [], template, true⟩
  have hparse : Query.parse query = .ok q := eq_ok_of_toOption (by decide +kernel)
  refine ⟨q, ⟨[W.take 5], (W.drop 6).take 3, p⟩, hparse, rfl, rfl, hclause, ?_, rfl, ?_,
    List.mem_singleton_self p, ?_, fun o => o == W, ?_, ?_⟩
  · decide +kernel
  · decide +kernel
  · rintro ⟨os₁, os₂, hos, -⟩
    have hmem : (W.drop 6).take 3 ∈ f.operands := by
      rw [hos]
      exact List.mem_append_right os₁ List.mem_cons_self
    exact hne (List.mem_singleton.1 hmem)
  · exact beq_self_eq_true W
  · exact beq_eq_false_iff_ne.2 hne

/-- Two comparisons, both of them conjuncts. -/
theorem recorded_are_conjuncts_sample :
    let query := "SELECT * FROM t WHERE a = 1 AND b = 2".toList
    let W := (Token.read (Deflated.ofQuery query).query).drop 5
    let ss := [W.take 3, W.drop 4]
    ∃ q f, Query.parse query = .ok q ∧ q.usesOr = false ∧ IsClause query ss W ∧
      q.predicates.length = 2 ∧ Formula.wellFormed f = true ∧ f.tokens = W ∧
      ∀ x ∈ spots (Deflated.ofQuery query).query ss, Whole f.operands x ∧
        ∀ v, f.truth v = true → v x.span = true := by
  intro query W ss
  let template := "SELECT * FROM [[table:t]] WHERE [[column:a]] = 1 AND [[column:b]] = 2".toList
  let a : Predicate := ⟨⟨none, "a".toList, "a".toList, 22⟩, .eq, .other "1".toList⟩
  let b : Predicate := ⟨⟨none, "b".toList, "b".toList, 32⟩, .eq, .other "2".toList⟩
  let q : Query :=
    ⟨some .select, [⟨"t".toList, none, 14⟩], [], [a, b], false, [], template, true⟩
  let f : Formula := .and (.atom (W.take 3)) ⟨.word, "AND".toList, 28⟩ (.atom (W.drop 4))
  have hparse : Query.parse query = .ok q := eq_ok_of_toOption (by decide +kernel)
  have hclause : IsClause query ss W := by
    refine ⟨(Token.read (Deflated.ofQuery query).query).drop 4, W, ⟨ss, false, []⟩, ?_, ?_,
      eq_ok_of_toOption ?_, rfl, (List.append_nil W).symm⟩ <;> decide +kernel
  have hf : f.wellFormed = true := by decide +kernel
  have htokens : f.tokens = W := by decide +kernel
  have hapart : ∀ x ∈ spots (Deflated.ofQuery query).query ss,
      openAfter [] (W.take (Chain.extent x.before - 1)) = some [] ∧
        openAfter [] x.span = some [] := by
    decide +kernel
  refine ⟨q, f, hparse, rfl, hclause, rfl, hf, htokens, ?_⟩
  intro x hx
  obtain ⟨hiff, htruth⟩ := ((recorded_are_conjuncts_iff hparse rfl).2 ss W hclause).2 f hf htokens
  have hwhole := hiff.2 hapart x hx
  exact ⟨hwhole, htruth x hx hwhole⟩

end Grammar

end TypedMirror
