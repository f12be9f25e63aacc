import TypedMirror.Proofs.Naming
import TypedMirror.Proofs.Installation

/-!
# What a write reaches

A write to a source sets off the triggers of the source, these change mirrors, and there may be
triggers on the mirrors in turn.  All triggers have been made by plans, be it of other registries,
and a mirror has its source in its name.  So nothing that follows a write to a source reaches another
source, or a mirror of another source.

* `Sql.fire_frame` — what follows a change stays within what its triggers act on;
* `Plan.Generated` — a trigger that the plan of some registry has made;
* `Plan.tables_of_change` — what a write to a source leaves alone.
-/

namespace TypedMirror

/-! ## Runs of triggers -/

namespace Sql

/-- What each step keeps, all steps keep. -/
theorem foldlM_keeps {α β : Type} {Q : β → Prop} {f : β → α → Option β} {xs : List α} {b b' : β}
    (hf : ∀ x ∈ xs, ∀ b b', Q b → f b x = some b' → Q b') (hb : Q b)
    (h : xs.foldlM f b = some b') : Q b' := by
  induction xs generalizing b with
  | nil =>
    cases h
    exact hb
  | cons x xs ih =>
    rw [List.foldlM_cons] at h
    obtain ⟨b₁, h₁, h⟩ := Option.bind_eq_some_iff.1 h
    exact ih (fun y hy => hf y (List.mem_cons_of_mem x hy))
      (hf x List.mem_cons_self b b₁ hb h₁) h

variable {V : Type} [DecidableEq V] {like : V → Text → Bool} {depth : Nat} {db db' : Db V}
  {table : Text} {c : Change V} {P : Text → Prop}

/-- The triggers of a table act on tables with a property. -/
def Db.Reaches (like : V → Text → Bool) (db : Db V) (table : Text) (P : Text → Prop) : Prop :=
  ∀ tr ∈ db.triggers, tr.table = table → ∀ s, ∀ a ∈ bodyActions like s tr.body, P a.table

/-- Two databases have the same triggers, and the same tables but for those with a property. -/
def Db.Framed (P : Text → Prop) (db db' : Db V) : Prop :=
  db'.triggers = db.triggers ∧ ∀ x, ¬ P x → db'.tables x = db.tables x

omit [DecidableEq V] in
theorem Db.Framed.refl (P : Text → Prop) (db : Db V) : db.Framed P db := ⟨rfl, fun _ _ => rfl⟩

omit [DecidableEq V] in
theorem Db.Framed.trans {db₁ db₂ db₃ : Db V} (h : db₁.Framed P db₂) (h' : db₂.Framed P db₃) :
    db₁.Framed P db₃ :=
  ⟨h'.1.trans h.1, fun x hx => (h'.2 x hx).trans (h.2 x hx)⟩

omit [DecidableEq V] in
theorem Db.Framed.put (ht : P table) (t : Table V) : db.Framed P (db.put table t) := by
  refine ⟨rfl, fun x hx => ?_⟩
  rw [Db.put_tables, if_neg]
  rintro rfl
  exact hx ht

/-- A change of a table is followed by changes of what its triggers act on, and so on: if the
triggers of tables with a property act on such tables only, then no others are changed. -/
theorem fire_frame (hclosed : ∀ x, P x → db.Reaches like x P) (htable : db.Reaches like table P)
    (h : fire like depth table c db = some db') : db.Framed P db' := by
  induction depth generalizing table c db db' with
  | zero =>
    unfold fire at h
    split at h
    · cases h
      exact .refl P db
    · cases h
  | succ depth ih =>
    refine foldlM_keeps (Q := db.Framed P) ?_ (.refl P db) h
    intro tr htr db₁ db₂ h₁ hbody
    obtain ⟨htr, htrtable⟩ := List.mem_filter.1 htr
    have htrtable : tr.table = table := (decide_eq_true_iff.1 htrtable).1
    refine foldlM_keeps (Q := db.Framed P) ?_ h₁ hbody
    intro a ha db₂ db₃ h₂ haction
    have hP : P a.table := htable tr htr htrtable _ a ha
    obtain ⟨t, -, haction⟩ := Option.bind_eq_some_iff.1 haction
    obtain ⟨⟨t', cs⟩, -, haction⟩ := Option.bind_eq_some_iff.1 haction
    refine foldlM_keeps (Q := db.Framed P) ?_ (h₂.trans (.put hP t')) haction
    intro c' _ db₄ db₅ h₄ hfire
    have hreaches : ∀ x, P x → db₄.Reaches like x P := by
      intro x hx
      unfold Db.Reaches
      rw [h₄.1]
      exact hclosed x hx
    exact h₄.trans (ih hreaches (hreaches a.table hP) hfire)

/-- A change of a table stays within it and what its triggers reach. -/
theorem change_frame {e : Effect V} (hclosed : ∀ x, P x → db.Reaches like x P)
    (htable : db.Reaches like table P)
    (h : db.change (fire like depth) table e = some db') :
    ∃ t t' cs, db.tables table = some t ∧ e t = some (t', cs) ∧ (db.put table t').Framed P db' := by
  obtain ⟨t, ht, h⟩ := Option.bind_eq_some_iff.1 h
  obtain ⟨⟨t', cs⟩, he, h⟩ := Option.bind_eq_some_iff.1 h
  refine ⟨t, t', cs, ht, he, ?_⟩
  refine foldlM_keeps (Q := (db.put table t').Framed P) ?_ (.refl P _) h
  intro c _ db₁ db₂ h₁ hfire
  have htriggers : db₁.triggers = db.triggers := h₁.1
  have hreaches : ∀ x, db.Reaches like x P → db₁.Reaches like x P := by
    intro x hx
    unfold Db.Reaches
    rw [htriggers]
    exact hx
  exact h₁.trans (fire_frame (fun x hx => hreaches x (hclosed x hx)) (hreaches table htable) hfire)

variable (like depth) in
/-- Nothing follows changes that no trigger is for. -/
theorem change_of_no_triggers {e : Effect V} {event : Event} {t t' : Table V} {cs : List (Change V)}
    (hon : db.triggersOn table event = []) (ht : db.tables table = some t)
    (he : e t = some (t', cs)) (hcs : ∀ c ∈ cs, c.event = event) :
    db.change (fire like depth) table e = some (db.put table t') := by
  have hfire : ∀ c ∈ cs, fire like depth table c (db.put table t') = some (db.put table t') := by
    intro c hc
    have hnone : (db.put table t').triggersOn table c.event = [] := by
      rw [hcs c hc]
      exact hon
    cases depth with
    | zero => simp [fire, hnone]
    | succ depth => simp [fire, hnone]
  have hfold : cs.foldlM (fun db c => fire like depth table c db) (db.put table t') =
      some (db.put table t') := by
    clear he hcs
    induction cs with
    | nil => rfl
    | cons c cs ih =>
      rw [List.foldlM_cons, hfire c List.mem_cons_self]
      exact ih fun c' hc' => hfire c' (List.mem_cons_of_mem c hc')
  rw [Db.change_eq _ ht he]
  exact hfold

/-- What actions on tables without triggers have done, if they have been carried out. -/
theorem evolve_of_runActions {s : Scope V} {actions : List RowAction} {x : Text} {t : Table V}
    (hq : ∀ a ∈ actions, db.Quiet a.table) (ht : db.tables x = some t)
    (h : runActions like (fire like depth) s actions db = some db') :
    ∃ t', evolve like s (actionsOn x actions) t = some t' ∧ db'.tables x = some t' := by
  induction actions generalizing db t with
  | nil =>
    cases h
    exact ⟨t, rfl, ht⟩
  | cons a as ih =>
    rw [runActions, List.foldlM_cons] at h
    obtain ⟨db₁, ha, h⟩ := Option.bind_eq_some_iff.1 h
    obtain ⟨u, hu, hchange⟩ := Option.bind_eq_some_iff.1 ha
    obtain ⟨⟨u', cs⟩, he, -⟩ := Option.bind_eq_some_iff.1 hchange
    have hput : db₁ = db.put a.table u' :=
      Option.some.inj (ha.symm.trans (change_of_quiet (hq a List.mem_cons_self) hu he))
    subst hput
    have hq' : ∀ b ∈ as, (db.put a.table u').Quiet b.table :=
      fun b hb => hq b (List.mem_cons_of_mem a hb)
    by_cases hx : x = a.table
    · subst hx
      obtain rfl : u = t := Option.some.inj (hu.symm.trans ht)
      have hself : actionsOn a.table (a :: as) = a :: actionsOn a.table as := by simp [actionsOn]
      rw [hself, evolve_cons, he]
      exact ih hq' (by simp) h
    · have hother : actionsOn x (a :: as) = actionsOn x as := by simp [actionsOn, Ne.symm hx]
      rw [hother]
      exact ih hq' (by rw [Db.put_tables, if_neg hx, ht]) h

end Sql

open Sql

namespace Plan

variable {V : Type} [DecidableEq V] {like : V → Text → Bool} {depth : Nat} {db db' : Db V}
  {r : Registry} {ms : List Mirror}

/-! ## Triggers that plans have made -/

/-- The actions of a trigger are on mirrors of its source, however keys are compared. -/
theorem table_of_mem_triggerBody {e : Event} {s : Scope V} {a : RowAction}
    (ha : a ∈ bodyActions like s (triggerBody e ms)) : ∃ x ∈ ms, a.table = x.id := by
  obtain ⟨part, hpart, ha⟩ := List.mem_filterMap.1 ha
  rcases List.mem_cons.1 hpart with rfl | hpart
  · obtain ⟨b, hb, rfl⟩ := Option.map_eq_some_iff.1 ha
    obtain ⟨x, hx, rfl⟩ := List.mem_map.1 (List.mem_of_find?_eq_some hb)
    exact ⟨x, (List.mem_filter.1 hx).1, writeAction_table x e⟩
  · obtain ⟨b, hb, rfl⟩ := List.mem_map.1 hpart
    cases ha
    rcases List.mem_append.1 hb with hb | hb
    · split at hb
      · obtain ⟨x, hx, htable⟩ := table_of_mem_evictions hb
        exact ⟨x, (List.mem_filter.1 hx).1, htable⟩
      · cases hb
    · obtain ⟨x, hx, rfl⟩ := List.mem_map.1 hb
      exact ⟨x, (List.mem_filter.1 hx).1, writeAction_table x e⟩

/-- A trigger has been made by the plan of a registry, of whose mirrors none is a source of `r`. -/
def Generated (r : Registry) (tr : Trigger) : Prop :=
  ∃ r' : Registry, (∀ x ∈ r'.mirrors, x.Defined ∧ x.id ∉ r.sourceTables) ∧ tr ∈ triggersOf r'

theorem Generated.name_eq {tr : Trigger} (h : Generated r tr) :
    tr.name = triggerName tr.event tr.table := by
  obtain ⟨r', -, htr⟩ := h
  obtain ⟨source, -, e, rfl⟩ := mem_triggersOf.1 htr
  rfl

/-- What a write to a source may reach: no source, and of the mirrors only those of the source. -/
def Near (r : Registry) (source x : Text) : Prop :=
  x ∉ r.sourceTables ∧ ∀ m ∈ r.mirrors, m.id = x → m.source = source

/-- The triggers of a source and of what is near it act on what is near it. -/
theorem reaches_near (hdefined : ∀ m ∈ r.mirrors, m.Defined)
    (hgenerated : ∀ tr ∈ db.triggers, Generated r tr) {source x : Text}
    (hx : x = source ∨ Near r source x) : db.Reaches like x (Near r source) := by
  rintro tr htr rfl s a ha
  obtain ⟨r', hr', htr⟩ := hgenerated tr htr
  obtain ⟨source', -, e, rfl⟩ := mem_triggersOf.1 htr
  obtain ⟨y, hy, htable⟩ := table_of_mem_triggerBody ha
  obtain ⟨hy, hsource⟩ := Registry.Regular.mem_mirrorsFor.1 hy
  obtain ⟨hydefined, hyapart⟩ := hr' y hy
  rw [htable]
  refine ⟨hyapart, ?_⟩
  intro m hm hid
  -- mirrors of one name have one source
  have hsame : m.source = source' :=
    (((hdefined m hm).id_eq_iff hydefined).1 hid).1.trans hsource
  rcases hx with hx | hx
  · exact hsame.trans hx
  · exact absurd (Registry.mem_sourceTables.2 ⟨m, hm, hsame⟩) hx.1

/-- A write to a source changes that, and beyond it nothing but what is near it. -/
theorem tables_of_change (hdefined : ∀ m ∈ r.mirrors, m.Defined)
    (hgenerated : ∀ tr ∈ db.triggers, Generated r tr) {source : Text} {e : Effect V}
    (h : db.change (fire like depth) source e = some db') :
    ∃ t t' cs, db.tables source = some t ∧ e t = some (t', cs) ∧ db'.triggers = db.triggers ∧
      ∀ x, ¬ Near r source x → db'.tables x = (db.put source t').tables x := by
  obtain ⟨t, t', cs, ht, he, hframe⟩ := change_frame
    (fun x hx => reaches_near hdefined hgenerated (.inr hx))
    (reaches_near hdefined hgenerated (.inl rfl)) h
  exact ⟨t, t', cs, ht, he, hframe.1, hframe.2⟩

end Plan

end TypedMirror
