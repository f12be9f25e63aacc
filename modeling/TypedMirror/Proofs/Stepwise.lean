import TypedMirror.Proofs.Stepwise.Clauses
import TypedMirror.Proofs.Stepwise.Spans

/-!
# Reading a query token by token

The reading along the tokens comes to what the productions say, clause by clause.  So every rule that
is tried finds the cursor in order and leaves it so, and the template can be written.

* `readsOr_skipToFrom` — the way to the first `FROM`;
* `gives_statement` — a statement, up to the first clause without its shape;
* `template?_eq` — edits in their places can all be made;
* `reading_in_order` — all rules of a query, and the query that comes of them.
-/

namespace TypedMirror.Stepwise

open Grammar (Reading keyword? readConditions readTables readStatement operation? whereSpans)
open Query (Edit)

variable {source : Text} {c : Cursor} {t : Token} {ts us : List Token} {op : Operation}

/-! ## The way to the tables -/

/-- The step reads what the production gives, unless the query can not be read. -/
def ReadsOr {α : Type} (source : Text) (p : Step α) (c : Cursor)
    (g : Except Unsupported (Option (α × List Token))) (write : α → Cursor → Cursor)
    (back : Cursor → Prop) : Prop :=
  match g with
  | .ok r => Reads source p c r write back
  | .error u => ∃ c', Runs source p c (.error (.unsupported u)) c' ∧ c'.Sound source

/-- A round of a loop before the others. -/
theorem ReadsOr.loop_more {σ : Type} {body : σ → Step (Option σ)} {x y : σ}
    {g : Except Unsupported (Option (Unit × List Token))} {back : Cursor → Prop}
    (hc : c.At source (t :: us))
    (hbody : Runs source (body x) c (.ok (some y)) (c.upTo source us))
    (h : ReadsOr source (loop body y) (c.upTo source us) g keep back) :
    ReadsOr source (loop body x) c g keep back := by
  have hless : ((c.upTo source us).rest source).length < (c.rest source).length := by
    rw [hc.rest, (hc.upTo (List.suffix_cons t us)).rest]
    exact Nat.lt_succ_self _
  match g with
  | .error u =>
    obtain ⟨c', hruns, hsound⟩ := h
    exact ⟨c', hbody.loop_more hless hruns, hsound⟩
  | .ok none =>
    obtain ⟨c', hc', hruns⟩ := h
    exact ⟨c', hc', hbody.loop_more hless hruns⟩
  | .ok (some (a, ts)) => exact ⟨hbody.loop_more hless h.1, h.2⟩

theorem readsOr_toFrom {before : Cursor} {start : List Token} (hbefore : before.At source start)
    (depth : Nat) (hts : ts <:+ start) :
    ReadsOr source (loop (nextToFrom before) depth) (before.upTo source ts)
      ((Grammar.skipToFrom depth ts).map (Option.map fun us => ((), us))) keep (· = before) := by
  induction ts generalizing depth with
  | nil =>
    have hc := hbefore.upTo hts
    have hnext : Runs source next (before.upTo source []) (.error .noMatch) (before.upTo source []) :=
      .take_none (lacks_nil hc)
    have hmove : Runs source (moveTo before.position) (before.upTo source []) (.ok ()) before :=
      .change source _ _
    exact ⟨before, rfl,
      Runs.loop_error (hnext.attempt_none.bind (hmove.bind (.refuse source before)))⟩
  | cons t us ih =>
    have hc := hbefore.upTo hts
    have hus := (List.suffix_cons t us).trans hts
    have hnext : Runs source next (before.upTo source (t :: us)) (.ok t) (before.upTo source us) :=
      .take hc.rest rfl
    have hmore : ∀ d, Runs source (nextToFrom before depth) (before.upTo source (t :: us))
        (.ok (some d)) (before.upTo source us) →
          ReadsOr source (loop (nextToFrom before) depth) (before.upTo source (t :: us))
            ((Grammar.skipToFrom d us).map (Option.map fun us => ((), us))) keep (· = before) :=
      fun d hbody => ReadsOr.loop_more hc hbody (ih d hus)
    rw [Grammar.skipToFrom]
    by_cases hselect : t.isKeyword "SELECT" = true
    · rw [if_pos hselect]
      exact ⟨_, Runs.loop_error (hnext.attempt_some.bind
        (.ite_pos hselect (.unsupported source _ _))), (hbefore.upTo hus).sound⟩
    rw [if_neg hselect]
    by_cases hopen : t.isPunct '(' = true
    · rw [if_pos hopen]
      exact hmore _ (hnext.attempt_some.bind (.ite_neg hselect (.ite_pos hopen (.pure source _ _))))
    rw [if_neg hopen]
    by_cases hclose : t.isPunct ')' = true
    · rw [if_pos hclose]
      exact hmore _ (hnext.attempt_some.bind (.ite_neg hselect (.ite_neg hopen
        (.ite_pos hclose (.pure source _ _)))))
    rw [if_neg hclose]
    by_cases hfrom : depth = 0 ∧ t.isKeyword "FROM" = true
    · rw [if_pos hfrom]
      exact ⟨Runs.loop_stop (hnext.attempt_some.bind (.ite_neg hselect (.ite_neg hopen
        (.ite_neg hclose (.ite_pos hfrom (.pure source _ _)))))), (hbefore.upTo hus).sound⟩
    · rw [if_neg hfrom]
      exact hmore _ (hnext.attempt_some.bind (.ite_neg hselect (.ite_neg hopen
        (.ite_neg hclose (.ite_neg hfrom (.pure source _ _))))))

theorem readsOr_skipToFrom (hc : c.At source ts) : ReadsOr source skipToFrom c
    ((Grammar.skipToFrom 0 ts).map (Option.map fun us => ((), us))) keep (· = c) := by
  have hloop := readsOr_toFrom hc 0 (List.suffix_refl ts)
  rw [hc.upTo_self] at hloop
  cases hskip : Grammar.skipToFrom 0 ts with
  | error u =>
    rw [hskip] at hloop
    obtain ⟨c', hruns, hsound⟩ := hloop
    exact ⟨c', ((Runs.current source c).bind hruns).call
      (Call.good_of_free rfl hc.sound hsound _), hsound⟩
  | ok r =>
    rw [hskip] at hloop
    exact Reads.call_back hc (Reads.stay (.current source c) hloop)

/-! ## Statements -/

/-- The cursor after a statement has been read. -/
def afterReading (source : Text) (r : Reading) : Cursor :=
  ⟨(Token.read source).length - r.rest.length, Query.edits r, r.tables, r.joins, r.predicates,
    r.usesOr⟩

/-- The step comes to a reading of the query, unless the query can not be read.  It may have come
to a clause that does not match. -/
def ComesTo {α : Type} (source : Text) (p : Step α) (c : Cursor) (g : Except Unsupported Reading) :
    Prop :=
  match g with
  | .ok r => (∃ x, (∀ u, x ≠ .error (.unsupported u)) ∧ Runs source p c x (afterReading source r)) ∧
    (afterReading source r).At source r.rest
  | .error u => ∃ c', Runs source p c (.error (.unsupported u)) c' ∧ c'.Sound source

section ComesTo

variable {α β : Type} {p : Step α} {f : α → Step β} {a : α} {c' : Cursor} {r : Reading}
  {g : Except Unsupported Reading}

theorem ComesTo.bind (hp : Runs source p c (.ok a) c') (h : ComesTo source (f a) c' g) :
    ComesTo source (p >>= f) c g := by
  cases g with
  | error u =>
    obtain ⟨c'', hruns, hsound⟩ := h
    exact ⟨c'', hp.bind hruns, hsound⟩
  | ok r =>
    obtain ⟨⟨x, hx, hruns⟩, hat⟩ := h
    exact ⟨⟨x, hx, hp.bind hruns⟩, hat⟩

/-- The reading ends where a clause does not match. -/
theorem comesTo_of_noMatch (heq : c = afterReading source r) (hat : c.At source r.rest)
    (hp : Runs source p c (.error .noMatch) c) : ComesTo source (p >>= f) c (.ok r) := by
  rw [heq] at hat hp ⊢
  exact ⟨⟨_, by simp, hp.bind_error⟩, hat⟩

end ComesTo

/-- What has been written down when the predicates of the WHERE clause have been. -/
theorem withClause_eq_afterReading (hc : c.At source ts) (hp : c.predicates = [])
    (hor : c.usesOr = false) (ps : List Predicate) (met : Bool) (us vs : List Token) :
    (withClause ps met (c.upTo source us)).upTo source vs =
      afterReading source ⟨c.tables, c.joins, ps, met, vs⟩ := by
  have hedits := hc.sound.edits
  rw [hp, List.map_nil, List.append_nil] at hedits
  simp [withClause, afterReading, Query.edits, Cursor.upTo, hedits, hp, hor]

theorem comesTo_conditions (hc : c.At source ts) (hp : c.predicates = []) (hor : c.usesOr = false) :
    ComesTo source (do
      whereClause
      tailClauses) c (readConditions source c.tables c.joins ts) := by
  have hwhere := gives_whereClause hc
  unfold readConditions
  cases hw : whereSpans ts with
  | error u =>
    rw [hw] at hwhere
    obtain ⟨c', hruns, hsound⟩ := hwhere
    exact ⟨c', hruns.bind_error, hsound⟩
  | ok w =>
    rw [hw] at hwhere
    obtain ⟨hruns, hat⟩ := hwhere
    obtain ⟨htail, hat⟩ := runs_tailClauses hat
    rw [withClause_eq_afterReading hc hp hor] at htail hat
    exact ⟨⟨_, by simp, hruns.bind htail⟩, hat⟩

/-- Nothing has been written down in front of the tables. -/
theorem comesTo_tables (hts : ts <:+ Token.read source) : ComesTo source (do
      tableList (op ≠ .delete)
      loop nextJoin ()
      doWhen (op = .update) setClause
      whereClause
      tailClauses) (Cursor.start.upTo source ts) (readTables source op ts) := by
  have hstart : Cursor.start.At source (Token.read source) := ⟨Cursor.start_sound source, rfl⟩
  have hc := hstart.upTo hts
  unfold readTables
  cases htables : Grammar.tableList op ts with
  | none =>
    have hcursor : Cursor.start.upTo source ts = afterReading source (.none ts) := rfl
    exact comesTo_of_noMatch hcursor hc (runs_tableList_none hc rfl htables)
  | some r =>
    obtain ⟨xs, us⟩ := r
    obtain ⟨hlist, hc₁⟩ := runs_tableList hc rfl htables
    obtain ⟨hjoins, hc₂⟩ := runs_joins hc₁ rfl
    refine ComesTo.bind hlist (ComesTo.bind hjoins ?_)
    dsimp only
    by_cases hop : op = .update
    · rw [decide_eq_true hop, doWhen_true, if_pos hop]
      have hset := reads_setClause hc₂
      cases hclause : Grammar.setClause source ((Grammar.joins source).many us).2 with
      | none =>
        rw [hclause] at hset
        obtain ⟨_, rfl, hruns⟩ := hset
        have hcursor := withClause_eq_afterReading hc₂ rfl rfl [] false
          ((Grammar.joins source).many us).2 ((Grammar.joins source).many us).2
        rw [withClause_nil, Cursor.upTo_upTo, hc₂.upTo_self] at hcursor
        exact comesTo_of_noMatch hcursor hc₂ hruns
      | some rest =>
        rw [hclause] at hset
        have hc₃ := hc₂.upTo (Grammar.suffix_of_setClause hclause)
        exact ComesTo.bind hset.1 (comesTo_conditions hc₃ rfl rfl)
    · rw [decide_eq_false hop, doWhen_false, if_neg hop]
      exact ComesTo.bind (.pure source () _) (comesTo_conditions hc₂ rfl rfl)

/-- A statement is read up to the first clause without its shape. -/
theorem gives_statement (op : Operation) (hts : ts <:+ Token.read source) :
    Gives source (statement op) (Cursor.start.upTo source ts)
      ((readStatement source op ts).map fun r => (afterReading source r, r.rest)) := by
  have hstart : Cursor.start.At source (Token.read source) := ⟨Cursor.start_sound source, rfl⟩
  have hc := hstart.upTo hts
  have hbody : ComesTo source (do
      doWhen (op ≠ .update) skipToFrom
      tableList (op ≠ .delete)
      loop nextJoin ()
      doWhen (op = .update) setClause
      whereClause
      tailClauses) (Cursor.start.upTo source ts) (readStatement source op ts) := by
    unfold readStatement
    by_cases hop : op = .update
    · rw [if_pos hop, decide_eq_false (not_not_intro hop), doWhen_false]
      exact ComesTo.bind (.pure source () _) (comesTo_tables hts)
    · rw [if_neg hop, decide_eq_true hop, doWhen_true]
      have hskip := readsOr_skipToFrom hc
      cases htables : Grammar.skipToFrom 0 ts with
      | error u =>
        rw [htables] at hskip
        obtain ⟨c', hruns, hsound⟩ := hskip
        exact ⟨c', hruns.bind_error, hsound⟩
      | ok r =>
        rw [htables] at hskip
        cases r with
        | none =>
          obtain ⟨_, rfl, hruns⟩ := hskip
          have hcursor : Cursor.start.upTo source ts = afterReading source (.none ts) := rfl
          exact comesTo_of_noMatch hcursor hc hruns
        | some us =>
          obtain ⟨hruns, -⟩ := hskip
          obtain ⟨as, p, rfl, -⟩ := Grammar.exists_of_skipToFrom htables
          have hus : us <:+ Token.read source :=
            (List.suffix_append_of_suffix (List.suffix_cons p us)).trans hts
          exact ComesTo.bind hruns (comesTo_tables hus)
  refine Gives.call rfl hc ?_
  cases hread : readStatement source op ts with
  | error u =>
    rw [hread] at hbody
    obtain ⟨c', hruns, hsound⟩ := hbody
    exact ⟨c', hruns.quietly_error, hsound⟩
  | ok r =>
    rw [hread] at hbody
    obtain ⟨⟨x, hx, hruns⟩, hat⟩ := hbody
    exact ⟨hruns.quietly hx, hat⟩

/-! ## Queries -/

theorem operation?_eq (ts : List Token) : operation? ts = match keyword? "SELECT" ts with
    | some us => some (.select, us)
    | none => match keyword? "UPDATE" ts with
      | some us => some (.update, us)
      | none => (keyword? "DELETE" ts).map (.delete, ·) := by
  cases ts with
  | nil => rfl
  | cons t us =>
    rw [operation?, (tests_keyword? "SELECT").cons, (tests_keyword? "UPDATE").cons,
      (tests_keyword? "DELETE").cons]
    by_cases hselect : t.isKeyword "SELECT" = true
    · rw [if_pos hselect, if_pos hselect]
    rw [if_neg hselect, if_neg hselect]
    by_cases hupdate : t.isKeyword "UPDATE" = true
    · rw [if_pos hupdate, if_pos hupdate]
    rw [if_neg hupdate, if_neg hupdate]
    by_cases hdelete : t.isKeyword "DELETE" = true
    · rw [if_pos hdelete, if_pos hdelete]
      rfl
    · rw [if_neg hdelete, if_neg hdelete]
      rfl

theorem reads_operation (hc : c.At source ts) :
    Reads source operation c (operation? ts) keep (· = c) := by
  refine Reads.call_back hc ?_
  rw [operation?_eq]
  have hselect := runs_accept hc (tests_keyword? "SELECT")
  have hupdate := runs_accept hc (tests_keyword? "UPDATE")
  cases hs : keyword? "SELECT" ts with
  | some us =>
    rw [hs] at hselect
    exact ⟨hselect.bind (.ite_pos rfl (.pure source _ _)),
      (hc.upTo (Grammar.advances_of_keyword? hs).1).sound⟩
  | none =>
    rw [hs, Option.getD_none, hc.upTo_self] at hselect
    refine Reads.stay hselect (Reads.ite_neg (by simp) ?_)
    cases hu : keyword? "UPDATE" ts with
    | some us =>
      rw [hu] at hupdate
      exact ⟨hupdate.bind (.ite_pos rfl (.pure source _ _)),
        (hc.upTo (Grammar.advances_of_keyword? hu).1).sound⟩
    | none =>
      rw [hu, Option.getD_none, hc.upTo_self] at hupdate
      refine Reads.stay hupdate (Reads.ite_neg (by simp) ?_)
      dsimp only
      cases hd : keyword? "DELETE" ts with
      | none =>
        have hlacks := (tests_keyword? "DELETE").lacks_at hc hd
        exact ⟨c, rfl, (Runs.take_none hlacks).bind_error⟩
      | some us =>
        obtain ⟨t, rfl, ht⟩ := (tests_keyword? "DELETE").takes hd
        exact ⟨(Runs.take hc.rest ht).bind (.pure source _ _),
          (hc.upTo (List.suffix_cons t us)).sound⟩

/-- What a query is read as, and where the cursor is afterwards. -/
theorem runs_query (source : Text) : match operation? (Token.read source) with
    | none => Runs source query .start (.error .noMatch) .start
    | some (op, ts) => match readStatement source op ts with
      | .error u => ∃ c', Runs source query .start (.error (.unsupported u)) c'
      | .ok r => Runs source query .start (.ok op) (afterReading source r) ∧
        (afterReading source r).At source r.rest := by
  have hc : Cursor.start.At source (Token.read source) := ⟨Cursor.start_sound source, rfl⟩
  have hreads := reads_operation hc
  cases hop : operation? (Token.read source) with
  | none =>
    obtain ⟨_, rfl, hruns⟩ := hreads.of_none hop
    exact hruns.bind_error
  | some r =>
    obtain ⟨op, ts⟩ := r
    obtain ⟨hruns, -⟩ := hreads.of_some hop
    have hts : ts <:+ Token.read source := by
      obtain ⟨t, hread, -⟩ := Grammar.exists_of_operation? hop
      rw [hread]
      exact List.suffix_cons t ts
    have hstatement := gives_statement op hts
    dsimp only
    cases hread : readStatement source op ts with
    | error u =>
      rw [hread] at hstatement
      obtain ⟨c', hstatement, -⟩ := hstatement
      exact ⟨c', hruns.bind hstatement.bind_error⟩
    | ok r =>
      rw [hread] at hstatement
      obtain ⟨hstatement, hat⟩ := hstatement
      exact ⟨hruns.bind (hstatement.bind (.pure source op _)), hat⟩

theorem good_of_mem_calls (source : Text) : ∀ k ∈ (query source .start).calls, k.Good source := by
  have hruns := runs_query source
  split at hruns
  · exact hruns.calls
  · split at hruns
    · obtain ⟨c', hruns⟩ := hruns
      exact hruns.calls
    · exact hruns.1.calls

/-! ## The template -/

section Template

variable {es : List Edit} {copied : Nat}

/-- Edits in their places can all be made. -/
theorem template?_eq (hordered : es.Pairwise fun e f => e.start < f.start ∧ e.stop ≤ f.start)
    (hfaithful : ∀ e ∈ es, Faithful source e) (hcopied : ∀ e ∈ es, copied ≤ e.start)
    (hle : copied ≤ source.length) :
    template? source copied es = some (Query.splice copied (source.drop copied) es) := by
  induction es generalizing copied with
  | nil => exact if_pos hle
  | cons e es ih =>
    obtain ⟨hhead, htail⟩ := List.pairwise_cons.1 hordered
    have he := hfaithful e List.mem_cons_self
    have hstart := hcopied e List.mem_cons_self
    have hstop : copied ≤ e.stop := hstart.trans he.start_le_stop
    have hmore := ih htail (fun f hf => hfaithful f (List.mem_cons_of_mem e hf))
      (fun f hf => (hhead f hf).2) he.stop_le_length
    have hdrop : (source.drop copied).drop (e.stop - copied) = source.drop e.stop := by
      rw [List.drop_drop, Nat.add_sub_cancel' hstop]
    rw [template?, if_pos ⟨hstart, he.start_le_stop.trans he.stop_le_length⟩, hmore, Query.splice,
      hdrop]
    rfl

/-- The template can be written from any cursor in order. -/
theorem Cursor.Sound.template?_eq (h : c.Sound source) :
    template? source 0 c.edits = some (Query.splice 0 source c.edits) :=
  Stepwise.template?_eq h.placed.ordered h.placed.faithful (fun _ _ => Nat.zero_le _) (Nat.zero_le _)

end Template

/-- Reading along the tokens is reading by the productions. -/
theorem parse_eq (text : Text) : parse text = (Query.parse text).map some := by
  have hruns := runs_query (Deflated.ofQuery text).query
  unfold parse Query.parse
  dsimp only
  cases hop : operation? (Token.read (Deflated.ofQuery text).query) with
  | none =>
    rw [hop] at hruns
    rw [hruns.result]
    rfl
  | some r =>
    obtain ⟨op, ts⟩ := r
    rw [hop] at hruns
    dsimp only at hruns ⊢
    cases hread : readStatement (Deflated.ofQuery text).query op ts with
    | error u =>
      rw [hread] at hruns
      obtain ⟨c', hruns⟩ := hruns
      rw [hruns.result]
      rfl
    | ok r =>
      rw [hread] at hruns
      obtain ⟨hruns, hat⟩ := hruns
      have htemplate := hat.sound.template?_eq
      rw [hruns.result, hruns.cursor, hat.rest, htemplate]
      rfl

/-- The rules that are tried for a query, with the cursors before and after each. -/
def calls (text : Text) : List Call := (query (Deflated.ofQuery text).query .start).calls

/-- Every rule finds the cursor in order and leaves it so, and a rule that goes back leaves it as it
was unless it has matched.  So the reading comes to a query with a template, and it is the query of
the productions. -/
theorem reading_in_order (text : Text) :
    (∀ k ∈ calls text, k.Good (Deflated.ofQuery text).query) ∧
      parse text = (Query.parse text).map some :=
  ⟨good_of_mem_calls _, parse_eq text⟩

/-- A join without a condition has written its table down by the time it is given up. -/
example : ((calls "DELETE FROM t JOIN u".toList).filter fun k =>
      k.rule = .joinBody || k.rule = .join).map
    (fun k => (k.rule, k.matched, k.before.tables.length, k.after.tables.length)) =
      [(.joinBody, false, 1, 2), (.join, false, 1, 1)] := by decide +kernel

end TypedMirror.Stepwise
