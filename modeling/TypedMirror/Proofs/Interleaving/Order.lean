import TypedMirror.Proofs.Synchronisation

/-!
# The order of a plan

What has been run of a plan when one of its statements has been run.

* `Plan.mem_statements` — the statements of a plan;
* `Plan.pairwise_statements` — which of them do not stand behind which others;
* `Plan.mem_of_behind` — what a first part of the plan must hold.
-/

namespace TypedMirror

open Sql

namespace Plan

variable {r : Registry} {m x : Mirror} {s : Statement} {source : Text} {e : Event}

/-- The part of the plan of a registry that makes one of its mirrors. -/
def partFor (r : Registry) (m : Mirror) : MirrorPlan Statement := mirrorPlan m (earlierClaims r m)

/-- What makes a trigger. -/
def creation (t : Trigger) : Statement := .createTrigger t.name t.event t.table t.body

/-- The statements of the plan of a registry. -/
inductive Planned (r : Registry) : Statement → Prop
  | dropTrigger {source : Text} (hs : source ∈ r.sourceTables) (e : Event) :
    Planned r (.dropTrigger (triggerName e source))
  | dropTable {m : Mirror} (hm : m ∈ r.mirrors) : Planned r (.dropTable m.id)
  | createTable {m : Mirror} (hm : m ∈ r.mirrors) : Planned r (partFor r m).create
  | backfill {m : Mirror} (hm : m ∈ r.mirrors) : Planned r (partFor r m).backfill
  | createTrigger {t : Trigger} (ht : t ∈ triggersOf r) : Planned r (creation t)

theorem mem_partFor : s ∈ (partFor r m).statements ↔
    (∃ e, s = .dropTrigger (triggerName e m.source)) ∨ s = .dropTable m.id ∨
      s = (partFor r m).create ∨ s = (partFor r m).backfill := by
  have hall : ∀ e, e ∈ Event.all := by
    intro e
    cases e <;> decide
  have hdrops : (partFor r m).drops =
      Event.all.map (fun e => .dropTrigger (triggerName e m.source)) ++ [.dropTable m.id] := rfl
  rw [MirrorPlan.statements, hdrops]
  simp only [List.mem_append, List.mem_map, List.mem_cons, List.not_mem_nil, or_false, hall,
    true_and, or_assoc, eq_comm]

theorem statements_eq (r : Registry) : (ofRegistry r).statements =
    r.mirrors.flatMap (fun m => (partFor r m).statements) ++
      (triggersOf r).flatMap fun t => [.dropTrigger t.name, creation t] := by
  rw [InStep.statements_ofRegistry, List.flatMap_map]
  rfl

theorem mem_statements : s ∈ (ofRegistry r).statements ↔ Planned r s := by
  rw [statements_eq, List.mem_append, List.mem_flatMap, List.mem_flatMap]
  constructor
  · rintro (⟨m, hm, hs⟩ | ⟨t, ht, hs⟩)
    · obtain ⟨e, rfl⟩ | rfl | rfl | rfl := mem_partFor.1 hs
      · exact .dropTrigger (Registry.mem_sourceTables.2 ⟨m, hm, rfl⟩) e
      · exact .dropTable hm
      · exact .createTable hm
      · exact .backfill hm
    · rcases List.mem_cons.1 hs with rfl | hs
      · obtain ⟨source, hsource, e, rfl⟩ := mem_triggersOf.1 ht
        exact .dropTrigger hsource e
      · obtain rfl := List.mem_singleton.1 hs
        exact .createTrigger ht
  · rintro (⟨hs, e⟩ | hm | hm | hm | ht)
    · obtain ⟨m, hm, rfl⟩ := Registry.mem_sourceTables.1 hs
      exact .inl ⟨m, hm, mem_partFor.2 (.inl ⟨e, rfl⟩)⟩
    · exact .inl ⟨_, hm, mem_partFor.2 (.inr (.inl rfl))⟩
    · exact .inl ⟨_, hm, mem_partFor.2 (.inr (.inr (.inl rfl)))⟩
    · exact .inl ⟨_, hm, mem_partFor.2 (.inr (.inr (.inr rfl)))⟩
    · exact .inr ⟨_, ht, List.mem_cons_of_mem _ List.mem_cons_self⟩

/-! ## What stands behind what -/

/-- One statement may stand behind another in a plan.  A table is dropped, created and filled in this
order, a trigger is not dropped any more once it has been created, and triggers come last. -/
def Behind : Statement → Statement → Prop
  | .createTable a _ _, .dropTable b => a ≠ b
  | .backfill a _ _ _, .dropTable b => a ≠ b
  | .backfill a _ _ _, .createTable b _ _ => a ≠ b
  | .backfill a _ _ _, .backfill b _ _ _ => a ≠ b
  | .createTrigger n _ _ _, .dropTrigger n' => n ≠ n'
  | .createTrigger _ _ _ _, .dropTable _ => False
  | .createTrigger _ _ _ _, .backfill _ _ _ _ => False
  | _, _ => True

theorem pairwise_statements (hids : (r.mirrors.map (·.id)).Nodup) :
    (ofRegistry r).statements.Pairwise Behind := by
  rw [statements_eq, List.pairwise_append, List.pairwise_flatMap, List.pairwise_flatMap]
  refine ⟨⟨?_, ?_⟩, ⟨?_, ?_⟩, ?_⟩
  · intro m _
    simp [partFor, MirrorPlan.statements, mirrorPlan, Event.all, Behind]
  · refine (List.pairwise_map.1 hids).imp ?_
    intro m m' hne x hx y hy
    obtain ⟨e, rfl⟩ | rfl | rfl | rfl := mem_partFor.1 hx <;>
      obtain ⟨e', rfl⟩ | rfl | rfl | rfl := mem_partFor.1 hy <;>
      first | exact hne | exact trivial
  · intro t _
    simp [Behind, creation]
  · refine (List.pairwise_map.1 (nodup_names_triggersOf r)).imp ?_
    intro t t' hne x hx y hy
    rcases List.mem_pair.1 hx with rfl | rfl <;> rcases List.mem_pair.1 hy with rfl | rfl <;>
      first | exact hne | exact trivial
  · intro x hx y hy
    obtain ⟨m, -, hx⟩ := List.mem_flatMap.1 hx
    obtain ⟨t, -, hy⟩ := List.mem_flatMap.1 hy
    obtain ⟨e, rfl⟩ | rfl | rfl | rfl := mem_partFor.1 hx <;>
      rcases List.mem_pair.1 hy with rfl | rfl <;> exact trivial

/-! ## First parts of a plan -/

/-- One statement is in front of each occurrence of another. -/
def Ahead (a b : Statement) (ss : List Statement) : Prop :=
  ∀ front back, ss = front ++ b :: back → a ∈ front

namespace Ahead

variable {a b : Statement} {ss ss' : List Statement}

theorem of_not_mem (hb : b ∉ ss) : Ahead a b ss := by
  rintro front back rfl
  exact absurd (by simp) hb

theorem of_mem (ha : a ∈ ss) (hb : b ∉ ss) : Ahead a b (ss ++ ss') := by
  intro front back heq
  rcases List.append_eq_append_iff.1 heq with ⟨mid, rfl, -⟩ | ⟨mid, rfl, hmid⟩
  · exact List.mem_append_left _ ha
  · cases mid with
    | nil => rwa [List.append_nil] at ha
    | cons x mid =>
      obtain rfl := (List.cons.inj hmid).1
      exact absurd (by simp) hb

theorem append (h : Ahead a b ss) (h' : Ahead a b ss') : Ahead a b (ss ++ ss') := by
  intro front back heq
  rcases List.append_eq_append_iff.1 heq with ⟨mid, rfl, hrest⟩ | ⟨mid, hss, hrest⟩
  · exact List.mem_append_right _ (h' mid back hrest)
  · cases mid with
    | nil => exact absurd (h' [] back hrest.symm) List.not_mem_nil
    | cons x mid =>
      obtain ⟨rfl, -⟩ := List.cons.inj hrest
      exact h front mid hss

theorem flatMap {α : Type} {f : α → List Statement} {xs : List α}
    (h : ∀ x ∈ xs, Ahead a b (f x)) : Ahead a b (xs.flatMap f) := by
  induction xs with
  | nil => exact of_not_mem List.not_mem_nil
  | cons x xs ih =>
    exact (h x List.mem_cons_self).append (ih fun y hy => h y (List.mem_cons_of_mem x hy))

end Ahead

/-- The triggers of a source are dropped before a mirror of it is made. -/
theorem ahead_create (hids : (r.mirrors.map (·.id)).Nodup) (hm : m ∈ r.mirrors) (e : Event) :
    Ahead (.dropTrigger (triggerName e m.source)) (partFor r m).create
      (ofRegistry r).statements := by
  rw [statements_eq]
  refine .append (.flatMap fun x hx => ?_) (.flatMap fun t _ => .of_not_mem ?_)
  · have hdrops : (partFor r m).create ∉ (partFor r x).drops := by
      simp [partFor, mirrorPlan, Event.all]
    by_cases hxm : x = m
    · subst hxm
      refine .of_mem ?_ hdrops
      cases e <;> simp [partFor, mirrorPlan, Event.all]
    · refine .of_not_mem fun hmem => hxm ?_
      obtain ⟨e', h⟩ | h | h | h := mem_partFor.1 hmem
      · cases h
      · cases h
      · exact (List.inj_on_of_nodup_map hids hm hx (Statement.createTable.inj h).1).symm
      · cases h
  · simp [creation, partFor, mirrorPlan]

section

variable {done rest : List Statement} {x y : Statement}
  (hplan : (ofRegistry r).statements = done ++ rest) (hids : (r.mirrors.map (·.id)).Nodup)

include hplan hids

/-- What cannot stand behind a statement has been run before it. -/
theorem mem_of_behind (hx : x ∈ done) (hy : Planned r y) (hno : ¬ Behind x y) : y ∈ done := by
  have hpairs := pairwise_statements hids
  rw [hplan, List.pairwise_append] at hpairs
  have hmem := mem_statements.2 hy
  rw [hplan] at hmem
  rcases List.mem_append.1 hmem with hy | hy
  · exact hy
  · exact absurd (hpairs.2.2 x hx y hy) hno

/-- A mirror has been made when it has been filled. -/
theorem create_mem (hm : m ∈ r.mirrors) (hfilled : (partFor r m).backfill ∈ done) :
    (partFor r m).create ∈ done :=
  mem_of_behind hplan hids hfilled (.createTable hm) fun hno => hno rfl

/-- All mirrors have been filled when the first trigger is created. -/
theorem backfill_mem (hm : m ∈ r.mirrors) {t : Trigger} (hcreation : creation t ∈ done) :
    (partFor r m).backfill ∈ done :=
  mem_of_behind hplan hids hcreation (.backfill hm) id

/-- The triggers of a source have been dropped when a mirror of it has been made. -/
theorem dropTrigger_mem (hm : m ∈ r.mirrors) (hcreate : (partFor r m).create ∈ done) (e : Event) :
    .dropTrigger (triggerName e m.source) ∈ done := by
  obtain ⟨front, back, rfl⟩ := List.append_of_mem hcreate
  rw [List.append_assoc] at hplan
  exact List.mem_append_left _ (ahead_create hids hm e front (back ++ rest) hplan)

end

end Plan

end TypedMirror
