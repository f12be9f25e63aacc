import TypedMirror.Proofs.Interleaving.Frames
import TypedMirror.Proofs.Interleaving.Order

/-!
# A plan that is being run

No transaction stands around the statements of a plan, and a host may write to the sources between
any two of them.  Each such write sets off the triggers that are there at that moment: those that
earlier plans have left, none, or those of the plan.

* `Move` — a statement of the plan, or a write of the host;
* `writesTaken` — the writes that go through, for a write may be refused;
* `Underway` — how things stand when a first part of a plan has been run;
* `Underway.statement`, `Underway.write` — they stay so with the next statement, and with a write.
-/

namespace TypedMirror

open Sql

/-- What happens while a plan is run. -/
inductive Move (V : Type)
  | statement (s : Statement)
  | write (w : Write V)

def Move.statement? {V : Type} : Move V → Option Statement
  | .statement s => some s
  | .write _ => none

section Statements

variable {V : Type}

/-- The statements that have been run. -/
def statementsOf (moves : List (Move V)) : List Statement := moves.filterMap Move.statement?

variable (front back : List (Move V)) (s : Statement) (w : Write V)

@[simp] theorem statementsOf_append :
    statementsOf (front ++ back) = statementsOf front ++ statementsOf back :=
  List.filterMap_append

@[simp] theorem statementsOf_statement : statementsOf [@Move.statement V s] = [s] := rfl

@[simp] theorem statementsOf_write : statementsOf [Move.write w] = [] := rfl

end Statements

variable {V : Type} [DecidableEq V]

/-- A write and what follows the changes that it makes.  The table may refuse it, and so may what
follows. -/
def Sql.Write.run (after : Text → Change V → Db V → Option (Db V)) (w : Write V) (db : Db V) :
    Option (Db V) :=
  db.change after w.table w.effect

/-- A statement that fails ends the run, and a write that is refused changes nothing. -/
def Move.run (like : V → Text → Bool) (depth : Nat) : Move V → Db V → Option (Db V)
  | .statement s, db => s.run like depth db
  | .write w, db => some ((w.run (fire like depth) db).getD db)

def runMoves (like : V → Text → Bool) (depth : Nat) (moves : List (Move V)) (db : Db V) :
    Option (Db V) :=
  moves.foldlM (fun db m => m.run like depth db) db

/-- The write of a move, unless it is refused. -/
def Move.taken? (like : V → Text → Bool) (depth : Nat) (db : Db V) : Move V → Option (Write V)
  | .statement _ => none
  | .write w => if (w.run (fire like depth) db).isSome then some w else none

/-- The writes that go through. -/
def writesTaken (like : V → Text → Bool) (depth : Nat) : List (Move V) → Db V → List (Write V)
  | [], _ => []
  | move :: moves, db => (move.taken? like depth db).toList ++
    (move.run like depth db).elim [] (writesTaken like depth moves)

section Moves

variable {like : V → Text → Bool} {depth : Nat} {db db' : Db V} {move : Move V}
  {moves front back : List (Move V)} {w : Write V}

theorem runMoves_append : runMoves like depth (front ++ back) db = some db' ↔
    ∃ db₁, runMoves like depth front db = some db₁ ∧ runMoves like depth back db₁ = some db' := by
  unfold runMoves
  rw [List.foldlM_append]
  exact Option.bind_eq_some_iff

theorem runMoves_cons : runMoves like depth (move :: moves) db = some db' ↔
    ∃ db₁, move.run like depth db = some db₁ ∧ runMoves like depth moves db₁ = some db' := by
  unfold runMoves
  rw [List.foldlM_cons]
  exact Option.bind_eq_some_iff

theorem runMoves_concat : runMoves like depth (front ++ [move]) db = some db' ↔
    ∃ db₁, runMoves like depth front db = some db₁ ∧ move.run like depth db₁ = some db' := by
  rw [runMoves_append]
  refine exists_congr fun db₁ => and_congr_right fun _ => ?_
  rw [runMoves_cons]
  constructor
  · rintro ⟨db₂, hmove, hnil⟩
    cases hnil
    exact hmove
  · exact fun hmove => ⟨db', hmove, rfl⟩

/-- Each move of a run has been made. -/
theorem exists_run_of_mem (hrun : runMoves like depth moves db = some db') (hmem : move ∈ moves) :
    ∃ db₁ db₂, move.run like depth db₁ = some db₂ := by
  obtain ⟨front, back, rfl⟩ := List.append_of_mem hmem
  obtain ⟨db₁, -, hrest⟩ := runMoves_append.1 hrun
  obtain ⟨db₂, hmove, -⟩ := runMoves_cons.1 hrest
  exact ⟨db₁, db₂, hmove⟩

omit [DecidableEq V] in
theorem statement_mem_of_mem {s : Statement} (h : s ∈ statementsOf moves) :
    .statement s ∈ moves := by
  obtain ⟨move, hmem, hs⟩ := List.mem_filterMap.1 h
  cases move with
  | statement s' =>
    cases hs
    exact hmem
  | write w => cases hs

/-- A write goes through, or it is refused and changes nothing. -/
theorem Move.run_write (hmove : (Move.write w).run like depth db = some db') :
    (w.run (fire like depth) db = some db' ∧ (Move.write w).taken? like depth db = some w) ∨
      (db' = db ∧ w.run (fire like depth) db = none ∧ (Move.write w).taken? like depth db = none) := by
  have hget := Option.some.inj hmove
  cases hw : w.run (fire like depth) db with
  | none =>
    rw [hw] at hget
    exact .inr ⟨hget.symm, rfl, by simp [Move.taken?, hw]⟩
  | some db₁ =>
    rw [hw] at hget
    exact .inl ⟨congrArg some hget, by simp [Move.taken?, hw]⟩

theorem writesTaken_concat (hfront : runMoves like depth front db = some db') :
    writesTaken like depth (front ++ [move]) db =
      writesTaken like depth front db ++ (move.taken? like depth db').toList := by
  induction front generalizing db with
  | nil =>
    cases hfront
    show (move.taken? like depth db').toList ++ (move.run like depth db').elim [] (fun _ => []) = _
    cases move.run like depth db' <;> exact List.append_nil _
  | cons m front ih =>
    obtain ⟨db₁, hm, hfront⟩ := runMoves_cons.1 hfront
    rw [List.cons_append, writesTaken, writesTaken, hm, Option.elim_some, Option.elim_some,
      ih hfront, List.append_assoc]

end Moves

/-- The kind of change that a write makes. -/
def Sql.Write.event : Write V → Event
  | .insert _ _ => .insert
  | .delete _ _ => .delete
  | .update _ _ _ => .update

theorem Sql.Write.event_of_effect {w : Write V} {t t' : Table V} {cs : List (Change V)}
    (h : w.effect t = some (t', cs)) : ∀ c ∈ cs, c.event = w.event := by
  intro c hc
  cases w with
  | insert table row =>
    obtain ⟨i, -, -, hp⟩ := Effect.insert_eq_some h
    cases hp
    rw [List.mem_singleton.1 hc]
    rfl
  | delete table id =>
    cases h
    obtain ⟨old, -, rfl⟩ := List.mem_map.1 hc
    rfl
  | update table id row =>
    change Effect.replace id row t = some (t', cs) at h
    unfold Effect.replace at h
    split at h
    · cases h
    · split at h
      · cases h
      · cases h
        obtain ⟨old, -, rfl⟩ := List.mem_map.1 hc
        rfl

/-! ## How things stand -/

open Plan

/-- How things stand when a first part of a plan has been run, whatever writes have been made. -/
structure Underway (r : Registry) (done : List Statement) (db : Db V) : Prop where
  sourced : r.Sourced db
  generated : ∀ tr ∈ db.triggers, Generated r tr
  /-- Once its triggers have been dropped, a source has no others than those of the plan. -/
  cleared : ∀ source ∈ r.sourceTables, ∀ e, .dropTrigger (triggerName e source) ∈ done →
    db.triggersOn source e =
      if creation (triggerOf r source e) ∈ done then [triggerOf r source e] else []
  quiet : ∀ m ∈ r.mirrors, .dropTable m.id ∈ done → db.Quiet m.id
  empty : ∀ m ∈ r.mirrors, (partFor r m).create ∈ done → (partFor r m).backfill ∉ done →
    db.tables m.id = some ⟨m.idColumn, []⟩

/-- What each statement of a plan does where it is run. -/
inductive Runs (like : V → Text → Bool) (r : Registry) (db : Db V) : Statement → Db V → Prop
  | dropTrigger {source : Text} (hs : source ∈ r.sourceTables) (e : Event) :
    Runs like r db (.dropTrigger (triggerName e source))
      { db with triggers := db.triggers.filter (·.name ≠ triggerName e source) }
  | dropTable {m : Mirror} (hm : m ∈ r.mirrors) :
    Runs like r db (.dropTable m.id)
      ⟨Function.update db.tables m.id none, db.triggers.filter (·.table ≠ m.id)⟩
  | createTable {m : Mirror} (hm : m ∈ r.mirrors) :
    Runs like r db (partFor r m).create (db.put m.id ⟨m.idColumn, []⟩)
  | backfill {m : Mirror} {t : Table V} (hm : m ∈ r.mirrors) (ht : db.tables m.source = some t) :
    Runs like r db (partFor r m).backfill
      (db.put m.id ⟨m.idColumn, m.ownedRows like (r.mirrorsFor m.source) t.rows⟩)
  | createTrigger {t : Trigger} (ht : t ∈ triggersOf r)
    (hnew : ∀ tr ∈ db.triggers, tr.name ≠ t.name) :
    Runs like r db (creation t) { db with triggers := db.triggers ++ [t] }

namespace Underway

variable {like : V → Text → Bool} {depth : Nat} {r : Registry} {db db' : Db V} {m : Mirror}
  {done rest : List Statement} {s : Statement}

omit [DecidableEq V] in
theorem mem_triggersOn {source : Text} {e : Event} {tr : Trigger} (h : Underway r done db)
    (htr : tr ∈ db.triggersOn source e) : tr.name = triggerName e source := by
  obtain ⟨hmem, hon⟩ := List.mem_filter.1 htr
  obtain ⟨rfl, rfl⟩ : tr.table = source ∧ tr.event = e := decide_eq_true_iff.1 hon
  exact (h.generated tr hmem).name_eq

section Statements

variable (hr : r.Regular) (hplan : (ofRegistry r).statements = done ++ s :: rest)

include hplan in
theorem planned : Planned r s := mem_statements.1 (by rw [hplan]; simp)

include hr hplan in
/-- A statement stands behind those that have been run. -/
theorem behind {x : Statement} (hx : x ∈ done) : Behind x s := by
  have hpairs := pairwise_statements hr.ids
  rw [hplan, List.pairwise_append] at hpairs
  exact hpairs.2.2 x hx s List.mem_cons_self

include hr hplan in
/-- What cannot stand behind a statement has been run. -/
theorem mem_of_not_behind {y : Statement} (hy : Planned r y) (hne : y ≠ s) (hno : ¬ Behind s y) :
    y ∈ done := by
  have hplan' : (ofRegistry r).statements = (done ++ [s]) ++ rest := by simpa using hplan
  have hmem := mem_of_behind hplan' hr.ids (by simp) hy hno
  simpa [hne] using hmem

variable (like depth) in
include hr hplan in
/-- The backfill of a mirror fills it with what it owns. -/
theorem run_backfill (h : Underway r done db) (hm : m ∈ r.mirrors)
    (hs : s = (partFor r m).backfill) :
    ∃ t, db.tables m.source = some t ∧ t.Keyed ∧ t.primary = m.idColumn ∧
      s.run like depth db =
        some (db.put m.id ⟨m.idColumn, m.ownedRows like (r.mirrorsFor m.source) t.rows⟩) := by
  subst hs
  obtain ⟨t, ht, hkeyed, hp⟩ := h.sourced m hm
  have hdropped : .dropTable m.id ∈ done :=
    mem_of_not_behind hr hplan (.dropTable hm) nofun fun hno => hno rfl
  have hcreated : (partFor r m).create ∈ done :=
    mem_of_not_behind hr hplan (.createTable hm) nofun fun hno => hno rfl
  have hfresh : (partFor r m).backfill ∉ done := fun hmem => behind hr hplan hmem rfl
  exact ⟨t, ht, hkeyed, hp, Plan.run_backfill (hr.keyColumn_eq hm) (h.quiet m hm hdropped)
    (h.empty m hm hcreated hfresh) ht hkeyed hp⟩

include hr hplan in
theorem runs (h : Underway r done db) (hrun : s.run like depth db = some db') :
    Runs like r db s db' := by
  cases planned hplan with
  | dropTrigger hs e =>
    cases hrun
    exact .dropTrigger hs e
  | dropTable hm =>
    cases hrun
    exact .dropTable hm
  | createTable hm =>
    simp only [partFor, mirrorPlan, Statement.run] at hrun
    split at hrun
    · cases hrun
    · cases hrun
      exact .createTable hm
  | backfill hm =>
    obtain ⟨t, ht, -, -, hput⟩ := run_backfill like depth hr hplan h hm rfl
    cases hput.symm.trans hrun
    exact .backfill hm ht
  | createTrigger ht =>
    simp only [creation, Statement.run] at hrun
    split at hrun
    · cases hrun
    · rename_i hno
      cases hrun
      refine .createTrigger ht fun tr htr hname => hno (.inl ?_)
      exact List.any_eq_true.2 ⟨tr, htr, by simp [hname]⟩

end Statements

end Underway

/-! ## The next statement -/

section TriggersOn

variable {db : Db V} {source : Text} {e : Event} {p : Trigger → Bool}
  (tables : Text → Option (Table V))

omit [DecidableEq V]

theorem triggersOn_filter (h : ∀ tr ∈ db.triggersOn source e, p tr) :
    (⟨tables, db.triggers.filter p⟩ : Db V).triggersOn source e = db.triggersOn source e := by
  unfold Db.triggersOn
  rw [List.filter_filter]
  apply List.filter_congr
  intro tr htr
  by_cases hon : tr.table = source ∧ tr.event = e
  · simp [hon, h tr (List.mem_filter.2 ⟨htr, by simp [hon]⟩)]
  · simp [hon]

theorem triggersOn_filter_eq_nil (h : ∀ tr ∈ db.triggersOn source e, p tr = false) :
    (⟨tables, db.triggers.filter p⟩ : Db V).triggersOn source e = [] := by
  unfold Db.triggersOn
  rw [List.filter_eq_nil_iff]
  intro tr htr hon
  obtain ⟨htr, hp⟩ := List.mem_filter.1 htr
  rw [h tr (List.mem_filter.2 ⟨htr, hon⟩)] at hp
  cases hp

theorem triggersOn_concat (t : Trigger) :
    (⟨tables, db.triggers ++ [t]⟩ : Db V).triggersOn source e =
      db.triggersOn source e ++ if t.table = source ∧ t.event = e then [t] else [] := by
  unfold Db.triggersOn
  rw [List.filter_append]
  by_cases hon : t.table = source ∧ t.event = e <;> simp [hon]

end TriggersOn

namespace Runs

variable {like : V → Text → Bool} {r : Registry} {db db' : Db V} {s : Statement} {m : Mirror}

omit [DecidableEq V] in
/-- No statement changes a source. -/
theorem sources_eq (h : Runs like r db s db') (hr : r.Regular) (hm : m ∈ r.mirrors) :
    db'.tables m.source = db.tables m.source := by
  cases h with
  | dropTable hx => exact Function.update_of_ne (hr.apart m hm _ hx) _ _
  | createTable hx => rw [Db.put_tables, if_neg (hr.apart m hm _ hx)]
  | backfill hx _ => rw [Db.put_tables, if_neg (hr.apart m hm _ hx)]
  | _ => rfl

omit [DecidableEq V] in
/-- A mirror is changed by its own statements only. -/
theorem mirror_eq (h : Runs like r db s db') (hr : r.Regular) (hm : m ∈ r.mirrors)
    (hs : s ≠ .dropTable m.id ∧ s ≠ (partFor r m).create ∧ s ≠ (partFor r m).backfill) :
    db'.tables m.id = db.tables m.id := by
  have hne : ∀ {x : Mirror}, x ∈ r.mirrors → x ≠ m → m.id ≠ x.id :=
    fun hx hxm hid => hxm (List.inj_on_of_nodup_map hr.ids hx hm hid.symm)
  cases h with
  | @dropTable x hx =>
    refine Function.update_of_ne (hne hx ?_) _ _
    rintro rfl
    exact hs.1 rfl
  | @createTable x hx =>
    rw [Db.put_tables, if_neg (hne hx ?_)]
    rintro rfl
    exact hs.2.1 rfl
  | @backfill x t hx _ =>
    rw [Db.put_tables, if_neg (hne hx ?_)]
    rintro rfl
    exact hs.2.2 rfl
  | _ => rfl

omit [DecidableEq V] in
theorem generated (h : Runs like r db s db') (hdefined : ∀ m ∈ r.mirrors, m.Defined)
    (hr : r.Regular) (hold : ∀ tr ∈ db.triggers, Generated r tr) :
    ∀ tr ∈ db'.triggers, Generated r tr := by
  cases h with
  | dropTrigger _ _ => exact fun tr htr => hold tr (List.mem_of_mem_filter htr)
  | dropTable _ => exact fun tr htr => hold tr (List.mem_of_mem_filter htr)
  | createTrigger ht _ =>
    intro tr htr
    rcases List.mem_append.1 htr with htr | htr
    · exact hold tr htr
    · rw [List.mem_singleton.1 htr]
      exact ⟨r, fun x hx => ⟨hdefined x hx, fun hs => hr.id_ne_source hx hs rfl⟩, ht⟩
  | _ => exact hold

omit [DecidableEq V] in
theorem quiet (h : Runs like r db s db') (hr : r.Regular) (hm : m ∈ r.mirrors)
    (hold : db.Quiet m.id ∨ s = .dropTable m.id) : db'.Quiet m.id := by
  cases h with
  | dropTrigger _ _ =>
    rcases hold with hold | hs
    · exact fun tr htr => hold tr (List.mem_of_mem_filter htr)
    · cases hs
  | dropTable _ =>
    rcases hold with hold | hs
    · exact fun tr htr => hold tr (List.mem_of_mem_filter htr)
    · intro tr htr
      rw [← Statement.dropTable.inj hs]
      simpa using (List.mem_filter.1 htr).2
  | createTrigger ht _ =>
    rcases hold with hold | hs
    · intro tr htr
      rcases List.mem_append.1 htr with htr | htr
      · exact hold tr htr
      · obtain ⟨source, hsource, e, rfl⟩ := mem_triggersOf.1 ht
        rw [List.mem_singleton.1 htr]
        exact (hr.id_ne_source hm hsource).symm
    · cases hs
  | createTable _ => exact hold.resolve_right nofun
  | backfill _ _ => exact hold.resolve_right nofun

omit [DecidableEq V] in
theorem cleared {done : List Statement} (h : Runs like r db s db') (hu : Underway r done db)
    (hr : r.Regular) (hbehind : ∀ x ∈ done, Behind x s) {source : Text}
    (hs : source ∈ r.sourceTables) (e : Event)
    (hdropped : .dropTrigger (triggerName e source) ∈ done ++ [s]) :
    db'.triggersOn source e =
      if creation (triggerOf r source e) ∈ done ++ [s] then [triggerOf r source e] else [] := by
  have hsame : .dropTrigger (triggerName e source) ≠ s → creation (triggerOf r source e) ≠ s →
      db.triggersOn source e =
        if creation (triggerOf r source e) ∈ done ++ [s] then [triggerOf r source e] else [] := by
    intro hdrop hcreate
    have hcleared := hu.cleared source hs e (by simpa [hdrop] using hdropped)
    simpa [hcreate] using hcleared
  cases h with
  | @dropTrigger source' _ e' =>
    by_cases hname : triggerName e source = triggerName e' source'
    · -- The trigger is dropped, and has not been created yet.
      have hcreate : creation (triggerOf r source e) ∉
          done ++ [.dropTrigger (triggerName e' source')] := by
        intro hmem
        rcases List.mem_append.1 hmem with hmem | hmem
        · exact hbehind _ hmem hname
        · cases List.mem_singleton.1 hmem
      rw [if_neg hcreate, triggersOn_filter_eq_nil]
      intro tr htr
      simp [hu.mem_triggersOn htr, hname]
    · rw [triggersOn_filter]
      · exact hsame (by simpa using hname) nofun
      · intro tr htr
        simp [hu.mem_triggersOn htr, hname]
  | @dropTable x hx =>
    rw [triggersOn_filter]
    · exact hsame nofun nofun
    · intro tr htr
      obtain ⟨m, hm, rfl⟩ := Registry.mem_sourceTables.1 hs
      obtain ⟨-, hon⟩ := List.mem_filter.1 htr
      have htable : tr.table = m.source := (decide_eq_true_iff.1 hon).1
      simpa [htable] using hr.apart m hm x hx
  | createTable _ => exact hsame nofun nofun
  | backfill _ _ => exact hsame nofun nofun
  | @createTrigger t ht hnew =>
    rw [triggersOn_concat]
    by_cases heq : t = triggerOf r source e
    · subst heq
      have hnone : db.triggersOn source e = [] := by
        rw [List.eq_nil_iff_forall_not_mem]
        intro tr htr
        exact hnew tr (List.mem_filter.1 htr).1 (hu.mem_triggersOn htr)
      rw [hnone, if_pos ⟨rfl, rfl⟩, if_pos (by simp)]
      rfl
    · have hother : ¬ (t.table = source ∧ t.event = e) := by
        rintro ⟨rfl, rfl⟩
        obtain ⟨source', -, e', rfl⟩ := mem_triggersOf.1 ht
        exact heq rfl
      have hcreate : creation (triggerOf r source e) ≠ creation t := by
        intro hc
        obtain ⟨hname, hevent, htable, hbody⟩ := Statement.createTrigger.inj hc
        exact hother ⟨htable.symm, hevent.symm⟩
      rw [if_neg hother, List.append_nil]
      exact hsame nofun hcreate

omit [DecidableEq V] in
theorem empty (h : Runs like r db s db') (hr : r.Regular) (hm : m ∈ r.mirrors)
    (hs : s = (partFor r m).create) : db'.tables m.id = some ⟨m.idColumn, []⟩ := by
  cases h with
  | createTable hx =>
    obtain rfl := List.inj_on_of_nodup_map hr.ids hx hm (Statement.createTable.inj hs).1
    simp
  | _ => cases hs

omit [DecidableEq V] in
theorem filled (h : Runs like r db s db') (hr : r.Regular) (hm : m ∈ r.mirrors)
    (hs : s = (partFor r m).backfill) : ∃ t, db.tables m.source = some t ∧
      db'.tables m.id = some ⟨m.idColumn, m.ownedRows like (r.mirrorsFor m.source) t.rows⟩ := by
  cases h with
  | backfill hx ht =>
    obtain rfl := List.inj_on_of_nodup_map hr.ids hx hm (Statement.backfill.inj hs).1
    exact ⟨_, ht, by simp⟩
  | _ => cases hs

end Runs

namespace Underway

variable {like : V → Text → Bool} {depth : Nat} {r : Registry} {db db' : Db V} {m : Mirror}
  {done rest : List Statement} {s : Statement} {w : Write V}

/-- Things stand as before when the next statement has been run. -/
theorem statement (h : Underway r done db) (hdefined : ∀ m ∈ r.mirrors, m.Defined)
    (hr : r.Regular) (hplan : (ofRegistry r).statements = done ++ s :: rest)
    (hrun : s.run like depth db = some db') : Underway r (done ++ [s]) db' := by
  have hruns := h.runs hr hplan hrun
  have hbehind : ∀ x ∈ done, Behind x s := fun x hx => behind hr hplan hx
  refine ⟨?_, hruns.generated hdefined hr h.generated, ?_, ?_, ?_⟩
  · intro m hm
    rw [hruns.sources_eq hr hm]
    exact h.sourced m hm
  · exact fun source hs e => hruns.cleared h hr hbehind hs e
  · intro m hm hdropped
    refine hruns.quiet hr hm ?_
    rcases List.mem_append.1 hdropped with hdropped | hdropped
    · exact .inl (h.quiet m hm hdropped)
    · exact .inr (List.mem_singleton.1 hdropped).symm
  · intro m hm hcreated hunfilled
    by_cases hs : s = (partFor r m).create
    · exact hruns.empty hr hm hs
    · have hbefore : (partFor r m).create ∈ done := by simpa [Ne.symm hs] using hcreated
      rw [hruns.mirror_eq hr hm ⟨?_, hs, ?_⟩]
      · exact h.empty m hm hbefore fun hmem => hunfilled (List.mem_append_left _ hmem)
      · rintro rfl
        exact hbehind _ hbefore rfl
      · rintro rfl
        exact hunfilled (by simp)

/-! ## A write -/

omit [DecidableEq V] in
/-- When a mirror of it has been made, a source has the plan's triggers that have been created, and no
others. -/
theorem triggersOn_source (h : Underway r done db) (hr : r.Regular) (hm : m ∈ r.mirrors)
    (hplan : (ofRegistry r).statements = done ++ rest) (hcreated : (partFor r m).create ∈ done)
    (e : Event) : db.triggersOn m.source e =
      if creation (triggerOf r m.source e) ∈ done then [triggerOf r m.source e] else [] :=
  h.cleared m.source (Registry.mem_sourceTables.2 ⟨m, hm, rfl⟩) e
    (dropTrigger_mem hplan hr.ids hm hcreated e)

variable (like depth) in
/-- A write for which there is no trigger changes its source and nothing else, if the source takes
it. -/
theorem run_of_missed (h : Underway r done db) (hr : r.Regular) (hm : m ∈ r.mirrors)
    (hplan : (ofRegistry r).statements = done ++ rest) (hw : w.table = m.source)
    (hcreated : (partFor r m).create ∈ done)
    (hno : creation (triggerOf r m.source w.event) ∉ done) {t t' : Table V} {cs : List (Change V)}
    (ht : db.tables m.source = some t) (he : w.effect t = some (t', cs)) :
    w.run (fire like depth) db = some (db.put m.source t') := by
  have hon : db.triggersOn w.table w.event = [] := by
    rw [hw, h.triggersOn_source hr hm hplan hcreated, if_neg hno]
  rw [← hw] at ht ⊢
  exact change_of_no_triggers like depth hon ht he (Write.event_of_effect he)

theorem change_of_missed (h : Underway r done db) (hr : r.Regular) (hm : m ∈ r.mirrors)
    (hplan : (ofRegistry r).statements = done ++ rest) (hw : w.table = m.source)
    (hcreated : (partFor r m).create ∈ done)
    (hno : creation (triggerOf r m.source w.event) ∉ done)
    (hrun : w.run (fire like depth) db = some db') :
    ∃ t t' cs, db.tables m.source = some t ∧ w.effect t = some (t', cs) ∧
      db' = db.put m.source t' := by
  obtain ⟨t, ht, hchange⟩ := Option.bind_eq_some_iff.1 hrun
  obtain ⟨⟨t', cs⟩, he, -⟩ := Option.bind_eq_some_iff.1 hchange
  rw [hw] at ht
  have hput := h.run_of_missed like depth hr hm hplan hw hcreated hno ht he
  exact ⟨t, t', cs, ht, he, Option.some.inj (hrun.symm.trans hput)⟩

/-- Things stand as before when a host has written to a source. -/
theorem write (h : Underway r done db) (hdefined : ∀ m ∈ r.mirrors, m.Defined)
    (hr : r.Regular) (hplan : (ofRegistry r).statements = done ++ rest)
    (hs : w.table ∈ r.sourceTables)
    (hkeeps : ∀ m ∈ r.mirrors, m.source = w.table → w.KeepsId m.idColumn)
    (hrun : w.run (fire like depth) db = some db') : Underway r done db' := by
  obtain ⟨t, t', cs, ht, he, htriggers, htables⟩ := tables_of_change hdefined h.generated hrun
  refine ⟨?_, ?_, ?_, ?_, ?_⟩
  · intro m hm
    have hsource := Registry.mem_sourceTables.2 ⟨m, hm, rfl⟩
    rw [htables m.source fun hnear => hnear.1 hsource, Db.put_tables]
    obtain ⟨t₀, ht₀, hkeyed, hp⟩ := h.sourced m hm
    by_cases hw : m.source = w.table
    · obtain rfl : t = t₀ := Option.some.inj (ht.symm.trans (hw ▸ ht₀))
      obtain ⟨added, -, hex⟩ := Write.exchange_of_keyed hkeyed (hp ▸ hkeeps m hm hw) he
      exact ⟨t', if_pos hw, hex.keyed, hex.primary.trans hp⟩
    · exact ⟨t₀, (if_neg hw).trans ht₀, hkeyed, hp⟩
  · rw [htriggers]
    exact h.generated
  · unfold Db.triggersOn
    rw [htriggers]
    exact h.cleared
  · unfold Db.Quiet
    rw [htriggers]
    exact h.quiet
  · intro m hm hcreated hunfilled
    have hempty := h.empty m hm hcreated hunfilled
    by_cases hw : w.table = m.source
    · have hno : creation (triggerOf r m.source w.event) ∉ done := fun hmem =>
        hunfilled (backfill_mem hplan hr.ids hm hmem)
      obtain ⟨t, t', cs, -, -, rfl⟩ := h.change_of_missed hr hm hplan hw hcreated hno hrun
      rw [Db.put_tables, if_neg (hr.apart m hm m hm).symm, hempty]
    · rw [htables m.id fun hnear => hw (hnear.2 m hm rfl).symm, Db.put_tables,
        if_neg (hr.id_ne_source hm hs), hempty]

end Underway

end TypedMirror
