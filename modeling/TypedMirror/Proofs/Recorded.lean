import TypedMirror.Proofs.Conjuncts
import TypedMirror.Proofs.Language.Spans

/-!
# What the WHERE clause records

A predicate is read at the start of a span, from all the tokens that are left: a column may take its
name, and an operator its second word, from behind the span, and is then not recorded.  It makes no
difference that `predicate?` is given the tokens of the span only (`predicateAt?_eq`), because the
boundary behind a span goes on with nothing that can start in it.

* `mem_runs`, `pairwise_runs` — the runs of tokens between connectors, in their order;
* `recorded_eq` — the disjunctions and the predicates of a query that has been read to its end.
-/

namespace TypedMirror.Grammar

/-! ## Reading beyond a span -/

/-- The predicate at the start of the tokens `s`, before others.  A column and an operator that take
one of these are none. -/
def predicateAt? (source : Text) (s behind : List Token) : Option Predicate := do
  let (column, ts) ← columnRef source (s ++ behind)
  let (op, ts) ← operator true ts
  if ts.length < behind.length then none
  else some ⟨column, op, operand source op (ts.take (ts.length - behind.length))⟩

section Beyond

variable {source : Text} {t : Token} {s behind : List Token} {word : String}

theorem Stops.keyword?_append (h : Stops behind)
    (hne : ∀ v ∈ boundaryWords, Text.lower word.toList ≠ Text.lower v.toList) (s : List Token) :
    keyword? word (s ++ behind) = (keyword? word s).map (· ++ behind) := by
  cases s with
  | nil =>
    refine keyword?_eq_none.2 fun t ht => ?_
    rw [← Bool.not_eq_true]
    intro hkeyword
    obtain ⟨us, hus⟩ := List.head?_eq_some_iff.1 ht
    exact not_isBoundary_of_isKeyword hkeyword hne us (h t us hus)
  | cons t s =>
    by_cases ht : t.isKeyword word = true <;> simp [keyword?, ht]

theorem Stops.punct?_append {c : Char} (h : Stops behind) (hc : c ≠ ';') (s : List Token) :
    punct? c (s ++ behind) = (punct? c s).map (· ++ behind) := by
  cases s with
  | nil =>
    refine punct?_eq_none.2 fun t ht => ?_
    rw [← Bool.not_eq_true]
    intro hpunct
    obtain ⟨us, hus⟩ := List.head?_eq_some_iff.1 ht
    exact not_isBoundary_of_isPunct hpunct hc us (h t us hus)
  | cons t s =>
    by_cases ht : t.isPunct c = true <;> simp [punct?, ht]

/-- With more tokens behind, the same is read, or something that takes of them. -/
def Extends {α : Type} (behind : List Token) (a b : Option (α × List Token)) : Prop :=
  b = a.map (fun p => (p.1, p.2 ++ behind)) ∨
    (a = none ∧ ∀ x ts, b = some (x, ts) → ts.length < behind.length)

theorem extends_columnRef (source : Text) (h : Stops behind) (s : List Token) :
    Extends behind (columnRef source s) (columnRef source (s ++ behind)) := by
  cases s with
  | nil => exact .inr ⟨rfl, fun _ _ hc => (advances_of_columnRef source hc).2⟩
  | cons t s =>
    have hdot : punct? '.' (s ++ behind) = _ := h.punct?_append (by decide) s
    unfold Extends
    rw [List.cons_append, columnRef, columnRef]
    split
    · rw [hdot]
      cases hs : punct? '.' s with
      | none => exact .inl rfl
      | some us =>
        cases us with
        | nil =>
          -- the name would stand behind the span
          refine .inr ⟨rfl, fun c ts hc => ?_⟩
          cases behind with
          | nil => cases hc
          | cons n ns =>
            simp only [Option.map_some, List.nil_append] at hc
            split at hc
            · cases hc
              exact Nat.lt_succ_self _
            · cases hc
        | cons n us =>
          refine .inl ?_
          simp only [Option.map_some, List.cons_append]
          split <;> rfl
    · exact .inl rfl

theorem extends_operator (h : Stops behind) (s : List Token) :
    Extends behind (operator true s) (operator true (s ++ behind)) := by
  cases s with
  | nil => exact .inr ⟨rfl, fun _ _ ho => (advances_of_operator ho).2⟩
  | cons t s =>
    have hnot : keyword? "NOT" (s ++ behind) = _ := h.keyword?_append (by decide) s
    have hlike : keyword? "LIKE" (s ++ behind) = _ := h.keyword?_append (by decide) s
    have hin : keyword? "IN" (s ++ behind) = _ := h.keyword?_append (by decide) s
    have hlist : ∀ us, opensList (us ++ behind) = opensList us := fun us => by
      rw [opensList, h.punct?_append (by decide), Option.isSome_map, opensList]
    refine .inl ?_
    rw [List.cons_append, operator, operator, hnot, hlike, hin, hlist]
    split
    · rw [Option.map_map]
      rfl
    split
    · rfl
    split
    · cases keyword? "NOT" s <;> rfl
    split
    · cases keyword? "LIKE" s with
      | some us => rfl
      | none =>
        cases keyword? "IN" s with
        | none => rfl
        | some us =>
          simp only [Option.map_some, Option.map_none, hlist]
          split <;> rfl
    · split <;> rfl

theorem predicateAt?_eq (h : Stops behind) (s : List Token) :
    predicateAt? source s behind = predicate? source s := by
  unfold predicateAt? predicate?
  rcases extends_columnRef source h s with hcolumn | ⟨hnone, hlength⟩
  · rw [hcolumn]
    cases columnRef source s with
    | none => rfl
    | some p =>
      obtain ⟨c, us⟩ := p
      simp only [Option.map_some, Option.bind_eq_bind, Option.bind_some]
      rcases extends_operator h us with hoperator | ⟨hnone, hlength⟩
      · rw [hoperator]
        cases operator true us with
        | none => rfl
        | some p =>
          obtain ⟨o, vs⟩ := p
          simp
      · rw [hnone]
        cases ho : operator true (us ++ behind) with
        | none => rfl
        | some p => exact if_pos (hlength p.1 p.2 ho)
  · rw [hnone]
    cases hc : columnRef source (s ++ behind) with
    | none => rfl
    | some p =>
      simp only [Option.bind_eq_bind, Option.bind_some, Option.bind_none]
      cases ho : operator true p.2 with
      | none => rfl
      | some r => exact if_pos ((advances_of_operator ho).2.trans (hlength p.1 p.2 hc))

theorem predicateAt?_nil (source : Text) (behind : List Token) :
    predicateAt? source [] behind = none := by
  unfold predicateAt?
  cases hc : columnRef source ([] ++ behind) with
  | none => rfl
  | some p =>
    simp only [Option.bind_eq_bind, Option.bind_some]
    cases ho : operator true p.2 with
    | none => rfl
    | some r => exact if_pos ((advances_of_operator ho).2.trans (advances_of_columnRef source hc).2)

end Beyond

/-! ## Runs between connectors -/

/-- A stretch of tokens between others. -/
structure Stretch where
  before : List Token
  run : List Token
  behind : List Token
deriving DecidableEq, Repr

/-- The run holds no connector, and none but connectors stand next to it. -/
structure Stretch.IsMaximal (W : List Token) (x : Stretch) : Prop where
  split : W = x.before ++ (x.run ++ x.behind)
  plain : ∀ t ∈ x.run, connects? t = none
  left : ∀ t ∈ x.before.getLast?, connects? t ≠ none
  right : ∀ t ∈ x.behind.head?, connects? t ≠ none

/-- The runs of the tokens `run ++ ts`, no connector being among `run`. -/
def runsFrom (before run : List Token) : List Token → List Stretch
  | [] => [⟨before, run, []⟩]
  | t :: ts =>
    if (connects? t).isSome then ⟨before, run, t :: ts⟩ :: runsFrom (before ++ run ++ [t]) [] ts
    else runsFrom before (run ++ [t]) ts

/-- The maximal runs of tokens between connectors, in their order. -/
def runs (W : List Token) : List Stretch := (runsFrom [] [] W).filter (·.run ≠ [])

section Runs

variable {before run ts W : List Token} {t : Token} {x : Stretch}

/-- There is one way to cut tokens at the first connector. -/
theorem eq_of_cut {a b c d : List Token} (h : a ++ b = c ++ d) (ha : ∀ t ∈ a, connects? t = none)
    (hb : ∀ t ∈ b.head?, connects? t ≠ none) (hc : ∀ t ∈ c, connects? t = none)
    (hd : ∀ t ∈ d.head?, connects? t ≠ none) : a = c ∧ b = d := by
  rcases List.append_eq_append_iff.1 h with ⟨us, rfl, rfl⟩ | ⟨us, rfl, rfl⟩
  · cases us with
    | nil => simp
    | cons u us => exact absurd (hc u (by simp)) (hb u rfl)
  · cases us with
    | nil => simp
    | cons u us => exact absurd (ha u (by simp)) (hd u rfl)

/-- A maximal run that starts in another, or at its ends, is the other. -/
theorem Stretch.IsMaximal.eq (hx : x.IsMaximal (before ++ (run ++ ts)))
    (hrun : ∀ t ∈ run, connects? t = none) (hts : ∀ t ∈ ts.head?, connects? t ≠ none)
    (hle : before.length ≤ x.before.length) (hge : x.before.length ≤ before.length + run.length) :
    x = ⟨before, run, ts⟩ := by
  obtain ⟨b, r, behind⟩ := x
  obtain ⟨hsplit, hplain, hleft, hright⟩ := hx
  dsimp only at *
  obtain ⟨d, rfl⟩ : before <+: b :=
    List.prefix_of_prefix_length_le ⟨_, rfl⟩ ⟨_, hsplit.symm⟩ hle
  rw [List.append_assoc, List.append_cancel_left_eq] at hsplit
  have hd : d <+: run := by
    refine List.prefix_of_prefix_length_le ⟨_, hsplit.symm⟩ ⟨_, rfl⟩ ?_
    rw [List.length_append] at hge
    omega
  -- the token before the start is none of the other run
  have hnil : d = [] := by
    rcases List.eq_nil_or_concat d with hnil | ⟨us, u, rfl⟩
    · exact hnil
    · exact absurd (hrun u (hd.subset (by simp))) (hleft u (by simp))
  subst hnil
  rw [List.nil_append] at hsplit
  obtain ⟨rfl, rfl⟩ := eq_of_cut hsplit hrun hts hplain hright
  simp

theorem plain_concat (hrun : ∀ t ∈ run, connects? t = none) (ht : ¬ (connects? t).isSome = true) :
    ∀ u ∈ run ++ [t], connects? u = none := by
  intro u hu
  rcases List.mem_append.1 hu with hu | hu
  · exact hrun u hu
  · rw [List.mem_singleton.1 hu]
    simpa using ht

theorem mem_runsFrom (hrun : ∀ t ∈ run, connects? t = none)
    (hbefore : ∀ t ∈ before.getLast?, connects? t ≠ none) : x ∈ runsFrom before run ts ↔
      x.IsMaximal (before ++ (run ++ ts)) ∧ before.length ≤ x.before.length := by
  induction ts generalizing before run with
  | nil =>
    rw [runsFrom, List.mem_singleton]
    constructor
    · rintro rfl
      exact ⟨⟨rfl, hrun, hbefore, by simp⟩, le_rfl⟩
    · rintro ⟨hx, hle⟩
      refine hx.eq hrun (by simp) hle ?_
      have := congrArg List.length hx.split
      simp only [List.length_append, List.length_nil] at this
      omega
  | cons t ts ih =>
    by_cases ht : (connects? t).isSome = true
    · have hconnector : connects? t ≠ none := Option.isSome_iff_ne_none.1 ht
      have hsame : before ++ run ++ [t] ++ ([] ++ ts) = before ++ (run ++ t :: ts) := by simp
      rw [runsFrom, if_pos ht, List.mem_cons, ih (by simp) (by simpa using hconnector), hsame]
      have hhead : ∀ u ∈ (t :: ts).head?, connects? u ≠ none := by
        rintro u ⟨⟩
        exact hconnector
      constructor
      · rintro (rfl | ⟨hx, hle⟩)
        · exact ⟨⟨rfl, hrun, hbefore, hhead⟩, le_rfl⟩
        · refine ⟨hx, le_trans ?_ hle⟩
          simp only [List.length_append]
          omega
      · rintro ⟨hx, hle⟩
        by_cases hge : x.before.length ≤ before.length + run.length
        · exact .inl (hx.eq hrun hhead hle hge)
        · refine .inr ⟨hx, ?_⟩
          simp only [List.length_append, List.length_cons, List.length_nil]
          omega
    · rw [runsFrom, if_neg ht, ih (plain_concat hrun ht) hbefore, List.append_assoc,
        List.singleton_append]

theorem mem_runs : x ∈ runs W ↔ x.run ≠ [] ∧ x.IsMaximal W := by
  rw [runs, List.mem_filter, mem_runsFrom (by simp) (by simp)]
  simp [and_comm]

/-- A run that stands further on comes later. -/
theorem pairwise_runs (W : List Token) :
    (runs W).Pairwise (fun x y => x.before.length < y.before.length) := by
  have key : ∀ ts before run, (∀ t ∈ run, connects? t = none) →
      (∀ t ∈ before.getLast?, connects? t ≠ none) →
      (runsFrom before run ts).Pairwise (fun x y => x.before.length < y.before.length) := by
    intro ts
    induction ts with
    | nil => exact fun _ _ _ _ => List.pairwise_singleton _ _
    | cons t ts ih =>
      intro before run hrun hbefore
      rw [runsFrom]
      split
      · rename_i ht
        have hlast : ∀ u ∈ (before ++ run ++ [t]).getLast?, connects? u ≠ none := by
          simpa using Option.isSome_iff_ne_none.1 ht
        refine List.pairwise_cons.2 ⟨fun y hy => ?_, ih _ _ (by simp) hlast⟩
        have hle := ((mem_runsFrom (by simp) hlast).1 hy).2
        simp only [List.length_append, List.length_cons, List.length_nil] at hle ⊢
        omega
      · rename_i ht
        exact ih _ _ (plain_concat hrun ht) hbefore
  exact (key W [] [] (by simp) (by simp)).filter _

end Runs

/-! ## The spans as runs -/

/-- The predicate that is recorded for a run of the WHERE clause, `rest` being left behind the
clause: the one at its start, if as many parentheses are closed before it as are opened. -/
def recorded? (source : Text) (rest : List Token) (x : Stretch) : Option Predicate :=
  if x.before.countP (·.isPunct '(') = x.before.countP (·.isPunct ')') then
    predicateAt? source x.run (x.behind ++ rest)
  else none

section Spans

variable {source : Text} {before run s ts us : List Token} {t : Token} {w : Spans}

theorem connects?_eq_disjunction : connects? t = some .disjunction ↔
    t.isKeyword "OR" = true ∨ t.isKeyword "XOR" = true ∨ t.isOperator "||" = true := by
  unfold connects?
  simp only [Bool.or_eq_true, or_assoc]
  split
  · simpa
  · rename_i hor
    simp only [hor, iff_false]
    split <;> simp

theorem runsFrom_append (hs : ∀ t ∈ s, connects? t = none) (ts : List Token) :
    runsFrom before run (s ++ ts) = runsFrom before (run ++ s) ts := by
  induction s generalizing run with
  | nil => simp
  | cons t s ih =>
    have ht : connects? t = none := hs t List.mem_cons_self
    rw [List.cons_append, runsFrom, ht, if_neg (by decide),
      ih fun u hu => hs u (List.mem_cons_of_mem t hu), List.append_assoc, List.singleton_append]

theorem balance_append (a b : List Token) : balance (a ++ b) = balance a + balance b := by
  simp only [balance, List.countP_append]
  omega

theorem balance_eq_zero :
    balance s = 0 ↔ s.countP (·.isPunct '(') = s.countP (·.isPunct ')') := by
  unfold balance
  omega

theorem balance_connector (h : connects? t ≠ none) : balance [t] = 0 := by
  have hpunct : ∀ c, t.isPunct c = false := fun c => by
    rw [← Bool.not_eq_true]
    intro hc
    exact not_isConnector_of_isPunct hc (isConnector_iff.2 (Option.isSome_iff_ne_none.2 h))
  simp [balance, hpunct]

theorem filterMap_recorded_cons (hstops : Stops (us ++ ts)) (xs : List Stretch) :
    (⟨before, s, us⟩ :: xs).filterMap (recorded? source ts) =
      (if balance before = 0 then (predicate? source s).toList else []) ++
        xs.filterMap (recorded? source ts) := by
  have hrecorded : recorded? source ts ⟨before, s, us⟩ =
      if balance before = 0 then predicate? source s else none := by
    simp only [recorded?, balance_eq_zero, predicateAt?_eq hstops]
  rw [List.filterMap_cons, hrecorded]
  by_cases hdepth : balance before = 0
  · simp only [if_pos hdepth]
    cases predicate? source s <;> rfl
  · simp only [if_neg hdepth]
    rfl

/-- The spans are the runs: behind the span `s`, and with `before` in front of it. -/
theorem Cuts.recorded (h : Cuts ts w) (hstops : Stops ts)
    (hrest : ∀ t ∈ w.rest.head?, connects? t = none) (source : Text) :
    ∃ U, ts = U ++ w.rest ∧ (w.usesOr = true ↔ ∃ t ∈ U, connects? t = some .disjunction) ∧
      ∀ before s, (runsFrom before s U).filterMap (recorded? source w.rest) =
        predicatesFrom source (balance before) (s :: w.spans) := by
  induction h with
  | stop ts =>
    refine ⟨[], rfl, by simp, fun before s => ?_⟩
    have hsplit : Stops ([] ++ ts) := hstops
    rw [runsFrom, filterMap_recorded_cons hsplit]
    rfl
  | dangling hc us =>
    have hnone := hrest _ rfl
    rw [hc] at hnone
    cases hnone
  | @more t u us s rest c w hc hspan _ ih =>
    obtain ⟨U, hU, hor, hruns⟩ := ih (stops_of_span hspan) hrest
    have hplain := connects?_of_mem_span hspan
    have hus : us = (u :: s) ++ U ++ w.rest := by
      rw [List.append_assoc, ← hU, append_of_span hspan]
    refine ⟨t :: ((u :: s) ++ U), by rw [hus]; rfl, ?_, fun before r => ?_⟩
    · have hin : (∃ v ∈ t :: ((u :: s) ++ U), connects? v = some .disjunction) ↔
          c = .disjunction ∨ ∃ v ∈ U, connects? v = some .disjunction := by
        constructor
        · rintro ⟨v, hv, hconnects⟩
          rcases List.mem_cons.1 hv with rfl | hv
          · exact .inl (Option.some.inj (hc.symm.trans hconnects))
          rcases List.mem_append.1 hv with hv | hv
          · rw [hplain v hv] at hconnects
            cases hconnects
          · exact .inr ⟨v, hv, hconnects⟩
        · rintro (rfl | ⟨v, hv, hconnects⟩)
          · exact ⟨t, List.mem_cons_self, hc⟩
          · exact ⟨v, List.mem_cons_of_mem t (List.mem_append_right _ hv), hconnects⟩
      rw [hin, ← hor, Bool.or_eq_true, decide_eq_true_iff]
    · have hconnector : connects? t ≠ none := by
        rw [hc]
        exact Option.some_ne_none c
      have hbalance : balance (before ++ r ++ [t]) = balance before + balance r := by
        rw [balance_append, balance_append, balance_connector hconnector]
        omega
      have hsplit : Stops (t :: ((u :: s) ++ U) ++ w.rest) := by
        rw [List.cons_append, ← hus]
        exact hstops
      rw [runsFrom, if_pos (by rw [hc]; rfl), filterMap_recorded_cons hsplit,
        runsFrom_append hplain, List.nil_append, hruns, hbalance]
      rfl

end Spans

/-! ## The clause of a query -/

/-- The tokens that a WHERE clause takes behind its first word, and those that it leaves.  Where no
clause is, none are taken. -/
def clauseOf (ts : List Token) : List Token × List Token :=
  match keyword? "WHERE" ts, whereSpans ts with
  | some us, .ok w => (us.take (us.length - w.rest.length), w.rest)
  | _, _ => ([], ts)

end Grammar

/-- The tokens of the WHERE clause of a query, and those behind them. -/
def Query.clause (query : Text) : List Token × List Token :=
  Grammar.clauseOf ((Query.conditions? query).getD [])

namespace Grammar

section Clause

variable {source : Text} {ts W : List Token} {w : Spans}

theorem clauseOf_eq (hw : whereSpans ts = .ok w)
    (hwhere : keyword? "WHERE" ts = some (W ++ w.rest)) : clauseOf ts = (W, w.rest) := by
  simp [clauseOf, hwhere, hw]

theorem filterMap_runs (source : Text) (W rest : List Token) :
    (runs W).filterMap (recorded? source rest) =
      (runsFrom [] [] W).filterMap (recorded? source rest) := by
  rw [runs, List.filterMap_filter]
  refine List.filterMap_congr fun x _ => ?_
  obtain ⟨before, run, behind⟩ := x
  cases run with
  | nil => simp [recorded?, predicateAt?_nil]
  | cons t run => simp

/-- What is recorded of a clause behind which no connector is left. -/
theorem recorded_of_whereSpans (hw : whereSpans ts = .ok w)
    (hrest : ∀ t ∈ w.rest.head?, connects? t = none) (source : Text) :
    (w.usesOr = true ↔ ∃ t ∈ (clauseOf ts).1, connects? t = some .disjunction) ∧
      predicatesFrom source 0 w.spans =
        (runs (clauseOf ts).1).filterMap (recorded? source (clauseOf ts).2) := by
  rcases whereSpans_eq_ok hw with ⟨hwhere, rfl⟩ |
    ⟨us, hwhere, rfl | ⟨u, s, vs, more, hs, hmore, rfl⟩⟩
  · have hclause : clauseOf ts = ([], ts) := by simp only [clauseOf, hwhere]
    rw [hclause]
    exact ⟨by simp, rfl⟩
  · rw [clauseOf_eq (W := []) hw hwhere]
    exact ⟨by simp, rfl⟩
  · obtain ⟨U, hU, hor, hruns⟩ := hmore.recorded (stops_of_span hs) hrest source
    have hplain := connects?_of_mem_span hs
    have hus : us = (u :: s) ++ U ++ more.rest := by
      rw [List.append_assoc, ← hU, append_of_span hs]
    rw [clauseOf_eq hw (hwhere.trans (congrArg some hus))]
    constructor
    · rw [hor]
      constructor
      · rintro ⟨t, ht, hconnects⟩
        exact ⟨t, List.mem_append_right _ ht, hconnects⟩
      · rintro ⟨t, ht, hconnects⟩
        rcases List.mem_append.1 ht with ht | ht
        · rw [hplain t ht] at hconnects
          cases hconnects
        · exact ⟨t, ht, hconnects⟩
    · rw [filterMap_runs, runsFrom_append hplain, List.nil_append, hruns]
      rfl

variable {query : Text} {q : Query}

/-- Of a query that has been read to its end, the disjunctions are those among the tokens of its
WHERE clause, at whatever depth, and the predicates are those at the starts of the runs between
connectors before which as many parentheses are closed as are opened. -/
theorem recorded_eq (h : Query.parse query = .ok q) (hfull : q.fullyParsed = true) :
    (q.usesOr = true ↔ ∃ t ∈ (Query.clause query).1,
      t.isKeyword "OR" = true ∨ t.isKeyword "XOR" = true ∨ t.isOperator "||" = true) ∧
    q.predicates = (runs (Query.clause query).1).filterMap
      (recorded? (Deflated.ofQuery query).query (Query.clause query).2) := by
  simp only [← connects?_eq_disjunction]
  rcases readsConditions_to_end h with ⟨hnone, hpred, hor⟩ | ⟨ts, w, hts, hw, hpred, hor, hend⟩
  · have hclause : Query.clause query = ([], []) := by
      rw [Query.clause, hnone]
      rfl
    rw [hpred, hor, hclause]
    exact ⟨by simp, rfl⟩
  · have hclosing := (isFinished_tail_iff _).1 (hend hfull)
    have hrest : ∀ t ∈ w.rest.head?, connects? t = none := fun t ht => by
      simpa [isConnector_iff] using not_isConnector_of_closing hclosing t ht
    have hclause : Query.clause query = clauseOf ts := by
      rw [Query.clause, hts]
      rfl
    rw [hpred, hor, hclause]
    exact recorded_of_whereSpans hw hrest _

/-- A disjunction in parentheses, and the list of an `IN` behind it. -/
theorem recorded_sample :
    let query := "SELECT * FROM t WHERE (a = 1 OR b = 2) AND c IN (\"x\", \"y\")".toList
    ∃ q, Query.parse query = .ok q ∧ q.fullyParsed = true ∧
      q.predicates.map (·.operand) = [.literals [1, 2]] ∧
      (q.usesOr = true ↔ ∃ t ∈ (Query.clause query).1,
        t.isKeyword "OR" = true ∨ t.isKeyword "XOR" = true ∨ t.isOperator "||" = true) ∧
      q.predicates = (runs (Query.clause query).1).filterMap
        (recorded? (Deflated.ofQuery query).query (Query.clause query).2) := by
  intro query
  let template := ("SELECT * FROM [[table:t]] WHERE (a = 1 OR b = 2) AND " ++
    "[[column:c]] IN (\"[[literal:1]]\", \"[[literal:2]]\")").toList
  let q : Query :=
    ⟨some .select, [⟨"t".toList, none, 14⟩], [],
      [⟨⟨none, "c".toList, "c".toList, 43⟩, .isIn, .literals [1, 2]⟩], true,
      ["x".toList, "y".toList], template, true⟩
  have hparse : Query.parse query = .ok q := eq_ok_of_toOption (by decide +kernel)
  exact ⟨q, hparse, rfl, rfl, recorded_eq hparse rfl⟩

end Clause

end Grammar

end TypedMirror
