import TypedMirror.Proofs.Renaming.Phrases
import TypedMirror.Proofs.Stepwise.Tables

/-!
# Lists

A loop goes round once for each phrase that a production reads.

* `runs_many` — a loop that takes phrases for as long as there are any;
* `reads_commaList` — a loop over phrases with commas between them;
* `runs_tableList`, `runs_joins` — the tables of a statement, and its joins.
-/

namespace TypedMirror.Stepwise

open Grammar (punct? commaList? many_of_none many_of_some)
open Query (tableEdit)
open Cursor (recorded)

variable {source : Text} {c : Cursor} {ts us vs : List Token}

/-! ## Phrases one after the other -/

section Many

variable {α : Type} {p : Production α} {body : Unit → Step (Option Unit)}
  {write : α → Cursor → Cursor} {inv : Cursor → Prop}

/-- A round of the loop reads what the production reads and writes it down. -/
structure Rounds (source : Text) (p : Production α) (body : Unit → Step (Option Unit))
    (write : α → Cursor → Cursor) (inv : Cursor → Prop) : Prop where
  none : ∀ {c ts}, c.At source ts → inv c → p.read ts = none → Runs source (body ()) c (.ok none) c
  some : ∀ {c ts a us}, c.At source ts → inv c → p.read ts = some (a, us) →
    Runs source (body ()) c (.ok (some ())) (write a (c.upTo source us)) ∧
      (write a (c.upTo source us)).At source us ∧ inv (write a (c.upTo source us))
  upTo : ∀ a ts c, (write a c).upTo source ts = write a (c.upTo source ts)

theorem runs_many (h : Rounds source p body write inv) (hc : c.At source ts) (hi : inv c) :
    ∃ c', c' = (p.many ts).1.foldl (fun c a => write a c) (c.upTo source (p.many ts).2) ∧
      Runs source (loop body ()) c (.ok ()) c' ∧ c'.At source (p.many ts).2 ∧ inv c' := by
  fun_induction p.many ts generalizing c with
  | case1 ts hread =>
    refine ⟨c, hc.upTo_self.symm, ?_, hc, hi⟩
    exact Runs.loop_stop (h.none hc hi hread)
  | case2 =>
    rename_i ts a rest hread _ more ih
    obtain ⟨hbody, hc', hi'⟩ := h.some hc hi hread
    obtain ⟨c', hc'', hloop, hat, hinv⟩ := ih hc' hi'
    refine ⟨c', ?_, Runs.loop_more hbody ?_ hloop, hat, hinv⟩
    · rw [hc'', h.upTo]
      rfl
    · rw [hc'.rest, hc.rest]
      exact (p.advances hread).2

end Many

/-! ## Phrases with commas between them -/

section Commas

variable {α : Type} {p : Production α}

theorem commaList?_of_none (h : p.read ts = none) : commaList? p ts = none := by
  rw [commaList?, h]
  rfl

theorem commaList?_of_some {a : α} (h : p.read ts = some (a, us)) :
    commaList? p ts = match punct? ',' us with
      | none => some us
      | some vs => commaList? p vs := by
  have hlist : commaList? p ts =
      (if (punct? ',' ((Grammar.Production.afterComma p).many us).2).isSome then none
      else some ((Grammar.Production.afterComma p).many us).2) := by
    rw [commaList?, h]
    rfl
  rw [hlist]
  cases hcomma : punct? ',' us with
  | none =>
    have hnone : (Grammar.Production.afterComma p).read us = none := by
      show (punct? ',' us).bind p.read = none
      rw [hcomma]
      rfl
    rw [many_of_none hnone, hcomma]
    rfl
  | some vs =>
    have hread : (Grammar.Production.afterComma p).read us = p.read vs := by
      show (punct? ',' us).bind p.read = p.read vs
      rw [hcomma]
      rfl
    dsimp only
    cases hv : p.read vs with
    | none =>
      rw [commaList?_of_none hv, many_of_none (hread.trans hv), hcomma]
      rfl
    | some r =>
      obtain ⟨b, ws⟩ := r
      rw [many_of_some (hread.trans hv), commaList?, hv]
      rfl

theorem runs_afterItem (hc : c.At source us) : Runs source afterItem c
    (.ok ((punct? ',' us).map fun _ => ())) (c.upTo source ((punct? ',' us).getD us)) := by
  have haccept := runs_accept hc (tests_punct? ',')
  cases hcomma : punct? ',' us with
  | none =>
    rw [hcomma] at haccept
    exact haccept.bind (.ite_neg (by simp) (.pure source _ _))
  | some vs =>
    rw [hcomma] at haccept
    exact haccept.bind (.ite_pos rfl (.pure source _ _))

/-- A loop over phrases with commas between them. -/
theorem reads_commaList {item : Step Unit} (p : Production α)
    (hitem : ∀ {c ts}, c.At source ts → Reads source item c ((p.read ts).map fun r => ((), r.2)) keep
      (Strays source c)) (hc : c.At source ts) :
    Reads source (commaList item) c ((commaList? p ts).map fun us => ((), us)) keep
      (Strays source c) := by
  induction hn : ts.length using Nat.strong_induction_on generalizing c ts with
  | _ n ih =>
    have hreads := hitem hc
    cases hread : p.read ts with
    | none =>
      obtain ⟨c', hc', hruns⟩ := hreads.of_none (by rw [hread]; rfl)
      rw [commaList?_of_none hread]
      exact ⟨c', hc', Runs.loop_error hruns.bind_error⟩
    | some r =>
      obtain ⟨a, us⟩ := r
      obtain ⟨hus, hlt⟩ := p.advances hread
      have hruns : Runs source item c (.ok ()) (c.upTo source us) :=
        (hreads.of_some (by rw [hread]; rfl)).1
      have hbody := hruns.bind (f := fun _ => afterItem) (runs_afterItem (hc.upTo hus))
      rw [commaList?_of_some hread]
      cases hcomma : punct? ',' us with
      | none =>
        rw [hcomma] at hbody
        exact ⟨Runs.loop_stop hbody, (hc.upTo hus).sound⟩
      | some vs =>
        obtain ⟨hvs, hlt'⟩ := Grammar.advances_of_punct? hcomma
        rw [hcomma] at hbody
        have hvs' := hc.upTo (hvs.trans hus)
        have hless : ((c.upTo source vs).rest source).length < (c.rest source).length := by
          rw [hvs'.rest, hc.rest]
          exact Nat.lt_trans hlt' hlt
        have hmore := ih vs.length (hn ▸ Nat.lt_trans hlt' hlt) hvs' rfl
        dsimp only
        cases hlist : commaList? p vs with
        | none =>
          obtain ⟨c', hc', hloop⟩ := hmore.of_none (by rw [hlist]; rfl)
          exact ⟨c', (Strays.upTo hc (hvs.trans hus)).trans hc', Runs.loop_more hbody hless hloop⟩
        | some ws =>
          obtain ⟨hloop, hsound⟩ := hmore.of_some (by rw [hlist]; rfl)
          exact ⟨Runs.loop_more hbody hless hloop, hsound⟩

end Commas

/-! ## Tables and joins -/

section Tables

theorem rounds_nextTable (source : Text) :
    Rounds source (Grammar.Production.afterComma Grammar.tables) nextTable recorded
      (·.predicates = []) where
  none {c ts} hc hp hread := by
    have hread : (punct? ',' ts).bind Grammar.tableRef = none := hread
    refine (Runs.current source c).bind ?_
    have haccept := runs_accept hc (tests_punct? ',')
    cases hcomma : punct? ',' ts with
    | none =>
      rw [hcomma, Option.getD_none, hc.upTo_self] at haccept
      exact haccept.bind (.ite_neg (by simp) (.pure source none c))
    | some us =>
      rw [hcomma] at haccept hread
      have hus := hc.upTo (Grammar.advances_of_punct? hcomma).1
      obtain ⟨_, rfl, htable⟩ := (reads_tableRef hus hp).of_none hread
      have hrewind := Runs.rewind source (Cursor.extends_upTo source us c)
      exact haccept.bind (.ite_pos rfl
        (htable.attempt_none.bind (hrewind.bind (.pure source none c))))
  some {c ts x us} hc hp hread := by
    have hread : (punct? ',' ts).bind Grammar.tableRef = some (x, us) := hread
    obtain ⟨vs, hcomma, htable⟩ := Option.bind_eq_some_iff.1 hread
    have haccept := runs_accept hc (tests_punct? ',')
    rw [hcomma] at haccept
    have hvs := (Grammar.advances_of_punct? hcomma).1
    have hus := (Grammar.advances_of_tableRef htable).1.trans hvs
    obtain ⟨hruns, hsound⟩ := (reads_tableRef (hc.upTo hvs) hp).of_some htable
    refine ⟨(Runs.current source c).bind (haccept.bind (.ite_pos rfl
      (hruns.attempt_some.bind (.pure source (some ()) _)))), ⟨hsound, (hc.upTo hus).rest⟩, hp⟩
  upTo _ _ _ := rfl

/-- With tables written down. -/
def withTables (xs : List TableRef) (c : Cursor) : Cursor :=
  { c with edits := c.edits ++ xs.map tableEdit, tables := c.tables ++ xs }

theorem foldl_recorded (xs : List TableRef) (c : Cursor) :
    xs.foldl (fun c x => recorded x c) c = withTables xs c := by
  induction xs generalizing c with
  | nil => simp [withTables]
  | cons x xs ih =>
    rw [List.foldl_cons, ih]
    simp [withTables, recorded]

theorem runs_tableList_none {op : Operation} (hc : c.At source ts) (hp : c.predicates = [])
    (h : Grammar.tableList op ts = none) :
    Runs source (tableList (op ≠ .delete)) c (.error .noMatch) c := by
  have htable : Grammar.tableRef ts = none := by
    cases htable : Grammar.tableRef ts with
    | none => rfl
    | some r =>
      rw [Grammar.tableList, htable] at h
      dsimp only [Option.bind_eq_bind, Option.bind_some] at h
      split at h
      · cases h
      · cases h
  obtain ⟨_, rfl, hruns⟩ := (reads_tableRef hc hp).of_none htable
  exact Runs.call hruns.bind_error (Call.good_of_eq _ hc.sound _)

theorem runs_tableList {op : Operation} {xs : List TableRef} (hc : c.At source ts)
    (hp : c.predicates = []) (h : Grammar.tableList op ts = some (xs, us)) :
    Runs source (tableList (op ≠ .delete)) c (.ok ()) (withTables xs (c.upTo source us)) ∧
      (withTables xs (c.upTo source us)).At source us := by
  obtain ⟨⟨x, vs⟩, htable, hmore⟩ := Option.bind_eq_some_iff.1 h
  obtain ⟨hruns, hsound⟩ := (reads_tableRef hc hp).of_some htable
  have hvs : (recorded x (c.upTo source vs)).At source vs :=
    ⟨hsound, (hc.upTo (Grammar.advances_of_tableRef htable).1).rest⟩
  dsimp only at hmore
  split at hmore
  · rename_i hop
    cases hmore
    refine ⟨Runs.call (hruns.bind ?_) (Call.good_of_match _ hc.sound hsound), hvs⟩
    rw [hop]
    exact .pure source () _
  · rename_i hop
    cases hmore
    obtain ⟨c', hc', hloop, hat, -⟩ := runs_many (rounds_nextTable source) hvs hp
    rw [foldl_recorded] at hc'
    have heq : c' = withTables (x :: ((Grammar.Production.afterComma Grammar.tables).many vs).1)
        (c.upTo source ((Grammar.Production.afterComma Grammar.tables).many vs).2) := by
      rw [hc']
      simp [withTables, recorded, Cursor.upTo]
    rw [← heq]
    refine ⟨Runs.call (hruns.bind ?_) (Call.good_of_match _ hc.sound hat.sound), hat⟩
    rw [decide_eq_true hop]
    exact hloop

/-- With a join written down. -/
def withJoin (j : Join) (c : Cursor) : Cursor :=
  { recorded j.table c with joins := c.joins ++ [j] }

/-- With joins written down. -/
def withJoins (js : List Join) (c : Cursor) : Cursor :=
  { withTables (js.map (·.table)) c with joins := c.joins ++ js }

theorem foldl_withJoin (js : List Join) (c : Cursor) :
    js.foldl (fun c j => withJoin j c) c = withJoins js c := by
  induction js generalizing c with
  | nil => simp [withJoins, withTables]
  | cons j js ih =>
    rw [List.foldl_cons, ih]
    simp [withJoins, withTables, withJoin, recorded]

theorem rounds_nextJoin (source : Text) :
    Rounds source (Grammar.joins source) nextJoin withJoin (·.predicates = []) where
  none {c ts} hc hp hread := by
    obtain ⟨_, rfl, hruns⟩ := (reads_join hc hp).of_none hread
    exact hruns.attempt_none.bind (.pure source none _)
  some {c ts j us} hc hp hread := by
    obtain ⟨hruns, hsound⟩ := (reads_join hc hp).of_some hread
    have hus := hc.upTo (Grammar.advances_of_join hread).1
    refine ⟨hruns.attempt_some.bind ((Runs.change source _ _).bind (.pure source (some ()) _)),
      ⟨⟨hsound.position_le, hsound.edits, hsound.placed⟩, hus.rest⟩, hp⟩
  upTo _ _ _ := rfl

theorem runs_joins (hc : c.At source ts) (hp : c.predicates = []) :
    Runs source (loop nextJoin ()) c (.ok ()) (withJoins ((Grammar.joins source).many ts).1
        (c.upTo source ((Grammar.joins source).many ts).2)) ∧
      (withJoins ((Grammar.joins source).many ts).1
        (c.upTo source ((Grammar.joins source).many ts).2)).At source
          ((Grammar.joins source).many ts).2 := by
  obtain ⟨c', hc', hloop, hat, -⟩ := runs_many (rounds_nextJoin source) hc hp
  rw [foldl_withJoin] at hc'
  rw [← hc']
  exact ⟨hloop, hat⟩

end Tables

end TypedMirror.Stepwise
