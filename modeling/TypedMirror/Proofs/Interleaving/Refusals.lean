import TypedMirror.Proofs.Interleaving.Underway

/-!
# Writes that are refused

A write is refused by its table, or by something that a trigger does in turn.  Of what the triggers of
a plan do, only the insertion into a mirror can fail, and it does where the mirror still has a row
under the id of the new one.

* `Plan.evolve_mirrorActions_eq_none` — which actions on a mirror fail;
* `Registry.Blocks` — a mirror that is in the way of a new row;
* `Underway.refused_iff` — which writes are refused while a plan is run.
-/

namespace TypedMirror

open Sql

/-! ## Actions that fail -/

namespace Sql

variable {V : Type} [DecidableEq V] {like : V → Text → Bool} {s : Scope V} {t u : Table V}
  {new : Row V} {i : V}

namespace Effect

theorem insert_eq_none (hi : new t.primary = some i) :
    insert new t = none ↔ ∃ x ∈ t.rows, x t.primary = some i := by
  constructor
  · intro hnone
    by_contra hfree
    push Not at hfree
    cases hnone.symm.trans (insert_of_fresh hi hfree)
  · rintro ⟨x, hx, hxi⟩
    apply Option.eq_none_iff_forall_ne_some.2
    intro p hp
    obtain ⟨j, hj, hfree, -⟩ := insert_eq_some hp
    exact hfree x hx (hxi.trans (hi.symm.trans hj))

theorem exists_of_upsert (columns : List Text) (hi : new t.primary = some i) :
    ∃ t', (upsert columns new t).map (·.1) = some t' ∧ t'.primary = t.primary := by
  unfold upsert
  cases hold : t.rows.find? (fun r => r t.primary = new t.primary) with
  | none =>
    have hfree : ∀ r ∈ t.rows, r t.primary ≠ some i := by
      intro r hr
      simpa [hi] using List.find?_eq_none.1 hold r hr
    rw [insert_of_fresh hi hfree]
    exact ⟨_, rfl, rfl⟩
  | some old => exact ⟨_, rfl, rfl⟩

end Effect

theorem Write.eq_insert_of_effect {w : Write V} {t' : Table V}
    (h : w.effect t = some (t', [.insert new])) : w = .insert w.table new := by
  have hevent : Event.insert = w.event := Write.event_of_effect h _ List.mem_cons_self
  cases w with
  | insert table row =>
    obtain ⟨i, -, -, hpair⟩ := Effect.insert_eq_some h
    cases hpair
    rfl
  | delete table id => cases hevent
  | update table id row => cases hevent

/-- Actions none of which fails on any table with an id column. -/
theorem exists_of_evolve {actions : List RowAction} {primary : Text}
    (h : ∀ a ∈ actions, ∀ t : Table V, t.primary = primary →
      ∃ t', (a.effect like s t).map (·.1) = some t' ∧ t'.primary = primary)
    (hu : u.primary = primary) : ∃ u', evolve like s actions u = some u' := by
  induction actions generalizing u with
  | nil => exact ⟨u, rfl⟩
  | cons a actions ih =>
    obtain ⟨v, hv, hprimary⟩ := h a List.mem_cons_self u hu
    rw [evolve_cons, hv, Option.bind_some]
    exact ih (fun b hb => h b (List.mem_cons_of_mem a hb)) hprimary

end Sql

namespace Plan

variable {V : Type} [DecidableEq V] {like : V → Text → Bool} {ms : List Mirror} {m : Mirror}
  {t u : Table V} {old new : Row V} {i : V} {c : Change V}

/-- A new row is not taken over just if the mirror owns its key and has a row under its id. -/
theorem evolve_insert_eq_none (hi : new m.idColumn = some i) (hu : u.primary = m.idColumn) :
    evolve like (Change.insert new).scope
        (mirrorActions like ms m .insert (Change.insert new).scope) u = none ↔
      m.owns like ms (new m.keyColumn) = true ∧
        ∃ x ∈ u.rows, x m.idColumn = new m.idColumn := by
  rw [mirrorActions_insert, hi]
  by_cases how : m.owns like ms (new m.keyColumn) = true
  · have hnew : Row.only (columnsOf m) new u.primary = some i := by
      rw [hu, Mirror.only_idColumn, hi]
    rw [if_pos how, evolve_singleton, and_iff_right how, ← hu, ← Effect.insert_eq_none hnew]
    exact Option.map_eq_none_iff
  · rw [if_neg how]
    exact iff_of_false nofun fun h => how h.1

variable (like ms old) in
theorem exists_evolve_update (hi : new m.idColumn = some i) (hu : u.primary = m.idColumn) :
    ∃ u', evolve like (Change.update old new).scope
      (mirrorActions like ms m .update (Change.update old new).scope) u = some u' := by
  refine exists_of_evolve (fun a ha v hv => ?_) hu
  rw [mirrorActions_update] at ha
  rcases List.mem_append.1 ha with ha | ha
  · split at ha
    · rw [List.mem_singleton.1 ha, ← hv]
      refine Effect.exists_of_upsert _ (i := i) ?_
      rw [hv]
      exact (Mirror.only_idColumn new).trans hi
    · cases ha
  · split at ha
    · cases ha
    · rw [List.mem_singleton.1 ha]
      exact ⟨_, rfl, hv⟩

variable (like ms old) in
theorem exists_evolve_delete (hu : u.primary = m.idColumn) :
    ∃ u', evolve like (Change.delete old).scope
      (mirrorActions like ms m .delete (Change.delete old).scope) u = some u' := by
  refine exists_of_evolve (fun a ha v hv => ?_) hu
  rw [mirrorActions_delete] at ha
  split at ha
  · rw [List.mem_singleton.1 ha]
    exact ⟨_, rfl, hv⟩
  · cases ha

/-- The actions on a mirror fail just if it owns the key of a new row and has a row under its id. -/
theorem evolve_mirrorActions_eq_none (ht : t.Keyed) (hp : t.primary = m.idColumn)
    (hu : u.primary = m.idColumn) (hc : c.Within t) :
    evolve like c.scope (mirrorActions like ms m c.event c.scope) u = none ↔
      ∃ new, c = .insert new ∧ m.owns like ms (new m.keyColumn) = true ∧
        ∃ x ∈ u.rows, x m.idColumn = new m.idColumn := by
  obtain ⟨i, hi⟩ := c.isSome_id ht hc
  rw [hp] at hi
  cases c with
  | insert new =>
    refine (evolve_insert_eq_none hi hu).trans ⟨fun h => ⟨new, rfl, h⟩, ?_⟩
    rintro ⟨_, hnew, h⟩
    cases hnew
    exact h
  | update old new =>
    have hnew : new m.idColumn = some i := by
      rw [← hp, hc.2, hp]
      exact hi
    obtain ⟨u', hu'⟩ := exists_evolve_update like ms old hnew hu
    exact iff_of_false (fun hnone => by cases hu'.symm.trans hnone) nofun
  | delete old =>
    obtain ⟨u', hu'⟩ := exists_evolve_delete like ms old hu
    exact iff_of_false (fun hnone => by cases hu'.symm.trans hnone) nofun

end Plan

/-! ## Mirrors in the way -/

open Plan

variable {V : Type} [DecidableEq V]

/-- A mirror is in the way of an insert: the plan's trigger is there to pass the row on, the mirror
owns its key, and has a row under its id. -/
def Registry.Blocks (like : V → Text → Bool) (r : Registry) (m : Mirror) (done : List Statement)
    (w : Write V) (db : Db V) : Prop :=
  ∃ row u, w = .insert m.source row ∧ creation (triggerOf r m.source .insert) ∈ done ∧
    m.owns like (r.mirrorsFor m.source) (row m.keyColumn) = true ∧ db.tables m.id = some u ∧
    ∃ x ∈ u.rows, x m.idColumn = row m.idColumn

namespace Underway

variable {like : V → Text → Bool} {depth : Nat} {r : Registry} {db db' : Db V} {m : Mirror}
  {done rest : List Statement} {w : Write V}

section Trigger

variable (h : Underway r done db) (hr : r.Regular) (hplan : (ofRegistry r).statements = done ++ rest)

include h hr hplan

omit [DecidableEq V] in
/-- When a trigger of the plan has been created, no mirror has any. -/
theorem quiet_of_creation {t : Trigger} (ht : creation t ∈ done) :
    ∀ m ∈ r.mirrors, db.Quiet m.id :=
  fun m hm => h.quiet m hm (mem_of_behind hplan hr.ids ht (.dropTable hm) id)

omit [DecidableEq V] in
theorem triggersOn_of_creation (hm : m ∈ r.mirrors) {e : Event}
    (ht : creation (triggerOf r m.source e) ∈ done) :
    db.triggersOn m.source e = [triggerOf r m.source e] := by
  have hcreated := create_mem hplan hr.ids hm (backfill_mem hplan hr.ids hm ht)
  rw [h.triggersOn_source hr hm hplan hcreated, if_pos ht]

/-- When a row of its source changes, the plan's trigger does to a mirror what its actions on the
mirror come to, whatever the other mirrors hold. -/
theorem evolve_of_trigger (hm : m ∈ r.mirrors) {e : Effect V} {t t' u : Table V} {c : Change V}
    (hcreation : creation (triggerOf r m.source c.event) ∈ done)
    (ht : db.tables m.source = some t) (he : e t = some (t', [c]))
    (hu : db.tables m.id = some u)
    (hrun : db.change (fire like (depth + 1)) m.source e = some db') :
    ∃ u', evolve like c.scope
        (mirrorActions like (r.mirrorsFor m.source) m c.event c.scope) u = some u' ∧
      db'.tables m.id = some u' := by
  have hquiet : ∀ a ∈ bodyActions like c.scope (triggerBody c.event (r.mirrorsFor m.source)),
      (db.put m.source t').Quiet a.table := by
    intro a ha
    obtain ⟨x, hx, htable⟩ := table_of_mem_triggerBody ha
    obtain ⟨hx, -⟩ := Registry.Regular.mem_mirrorsFor.1 hx
    rw [htable]
    exact h.quiet_of_creation hr hplan hcreation x hx
  have hput : (db.put m.source t').tables m.id = some u := by
    rw [Db.put_tables, if_neg (hr.apart m hm m hm).symm, hu]
  rw [InStep.change_of_trigger (h.triggersOn_of_creation hr hplan hm hcreation) ht he] at hrun
  obtain ⟨u', hu', htable⟩ := evolve_of_runActions hquiet hput hrun
  rw [actionsOn_bodyActions c.event (hr.ids_mirrorsFor m.source) (hr.keyColumn_eq hm)
    (Registry.Regular.mem_mirrorsFor.2 ⟨hm, rfl⟩)] at hu'
  exact ⟨u', hu', htable⟩

/-- A row that a mirror is in the way of is refused. -/
theorem refused_of_blocks (hm : m ∈ r.mirrors) (hblocks : r.Blocks like m done w db)
    (hfilled : ∃ u, db.tables m.id = some u ∧ u.primary = m.idColumn) {t t' : Table V}
    {cs : List (Change V)} (ht : db.tables w.table = some t) (he : w.effect t = some (t', cs)) :
    w.run (fire like (depth + 1)) db = none := by
  obtain ⟨row, u, rfl, hcreation, how, hu, hold⟩ := hblocks
  obtain ⟨u₀, hu₀, hup⟩ := hfilled
  obtain rfl : u = u₀ := Option.some.inj (hu.symm.trans hu₀)
  obtain ⟨-, hp⟩ := h.sourced.keyed hm ht
  obtain ⟨i, hi, -, hpair⟩ := Effect.insert_eq_some he
  cases hpair
  have hfails := (evolve_insert_eq_none (hp ▸ hi) hup).2 ⟨how, hold⟩
  apply Option.eq_none_iff_forall_ne_some.2
  intro db' hrun
  obtain ⟨u', hu', -⟩ := h.evolve_of_trigger (c := .insert row) hr hplan hm hcreation ht he hu hrun
  cases hfails.symm.trans hu'

variable (hs : w.table ∈ r.sourceTables)
  (hkeeps : ∀ m ∈ r.mirrors, m.source = w.table → w.KeepsId m.idColumn)

include hs hkeeps

/-- With no mirror in the way of it, a write goes through that the plan's trigger is there for. -/
theorem exists_run_of_creation (hcreation : creation (triggerOf r w.table w.event) ∈ done)
    (hfilled : ∀ m ∈ r.mirrors, ∃ u, db.tables m.id = some u ∧ u.primary = m.idColumn)
    {t t' : Table V} {cs : List (Change V)} (ht : db.tables w.table = some t)
    (he : w.effect t = some (t', cs)) (hfree : ∀ m ∈ r.mirrors, ¬ r.Blocks like m done w db) :
    ∃ db', w.run (fire like (depth + 1)) db = some db' := by
  obtain ⟨m₀, hm₀, hsource⟩ := Registry.mem_sourceTables.1 hs
  obtain ⟨hkeyed, hp₀⟩ := h.sourced.keyed hm₀ (hsource ▸ ht)
  rcases Write.effect_of_keyed hkeyed (hp₀ ▸ hkeeps m₀ hm₀ hsource) he with
    ⟨rfl, -, -⟩ | ⟨c, rfl, hc, -, -⟩
  · exact ⟨_, Db.change_eq _ ht he⟩
  · have hevent : c.event = w.event := Write.event_of_effect he c List.mem_cons_self
    rw [← hevent] at hcreation
    have hevolve : ∀ m ∈ r.mirrors, m.source = w.table → ∃ u u', db.tables m.id = some u ∧
        evolve like c.scope (mirrorActions like (r.mirrorsFor w.table) m c.event c.scope) u =
          some u' := by
      intro m hm hms
      obtain ⟨u, hu, hup⟩ := hfilled m hm
      obtain ⟨-, hp⟩ := h.sourced.keyed hm (hms ▸ ht)
      have hgoes : evolve like c.scope
          (mirrorActions like (r.mirrorsFor w.table) m c.event c.scope) u ≠ none := by
        intro hfails
        obtain ⟨new, rfl, how, hold⟩ := (evolve_mirrorActions_eq_none hkeyed hp hup hc).1 hfails
        exact hfree m hm ⟨new, u, hms ▸ Write.eq_insert_of_effect he, hms ▸ hcreation,
          hms ▸ how, hu, hold⟩
      obtain ⟨u', hu'⟩ := Option.ne_none_iff_exists'.1 hgoes
      exact ⟨u, u', hu, hu'⟩
    obtain ⟨db', hrun, -⟩ := InStep.exists_of_change hr hs
      (fun m hm _ => h.quiet_of_creation hr hplan hcreation m hm)
      (hsource ▸ h.triggersOn_of_creation hr hplan hm₀ (hsource ▸ hcreation)) ht he hevolve
    exact ⟨db', hrun⟩

/-- When the triggers for such a write that earlier plans have left are gone, and if its table takes
it, a write is refused just if a mirror is in the way of it. -/
theorem refused_iff (hdropped : .dropTrigger (triggerName w.event w.table) ∈ done)
    (hfilled : ∀ m ∈ r.mirrors, (partFor r m).backfill ∈ done →
      ∃ u, db.tables m.id = some u ∧ u.primary = m.idColumn)
    (htaken : (w.run ignore db).isSome) :
    w.run (fire like (depth + 1)) db = none ↔ ∃ m ∈ r.mirrors, r.Blocks like m done w db := by
  obtain ⟨db', hignore⟩ := Option.isSome_iff_exists.1 htaken
  obtain ⟨t, t', cs, ht, he, -⟩ := change_ignore hignore
  constructor
  · intro hnone
    by_contra hfree
    push Not at hfree
    by_cases hcreation : creation (triggerOf r w.table w.event) ∈ done
    · have hfilled' := fun m hm => hfilled m hm (backfill_mem hplan hr.ids hm hcreation)
      obtain ⟨db', hrun⟩ :=
        h.exists_run_of_creation hr hplan hs hkeeps hcreation hfilled' ht he hfree
      cases hnone.symm.trans hrun
    · have hon := h.cleared w.table hs w.event hdropped
      rw [if_neg hcreation] at hon
      have hput : w.run (fire like (depth + 1)) db = some (db.put w.table t') :=
        change_of_no_triggers like _ hon ht he (Write.event_of_effect he)
      cases hnone.symm.trans hput
  · rintro ⟨m, hm, hblocks⟩
    have hcreation : creation (triggerOf r m.source .insert) ∈ done := by
      obtain ⟨row, u, -, hcreation, -⟩ := hblocks
      exact hcreation
    exact h.refused_of_blocks hr hplan hm hblocks
      (hfilled m hm (backfill_mem hplan hr.ids hm hcreation)) ht he

end Trigger

end Underway

end TypedMirror
