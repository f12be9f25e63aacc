import TypedMirror.Proofs.Installation

/-!
# Mirrors stay in step with their sources

A registry and a database are in step if each mirror holds what it owns of its source, and the triggers
of the sources are those of the registry's plan.  Running the plan brings them in step, and every write
of the host to a source keeps them so.

* `InStep.of_plan` — after the statements of the plan;
* `InStep.step` — after one more write;
* `InStep.rounds` — after the plan has been run any number of times more, with writes in between;
* `mirrors_in_step` — after the plan and any sequence of writes.
-/

namespace TypedMirror

open Sql

variable {V : Type} [DecidableEq V]

/-- The mirrors hold what they own, and the triggers are in place. -/
structure InStep (like : V → Text → Bool) (r : Registry) (db : Db V) : Prop where
  quiet : ∀ m ∈ r.mirrors, db.Quiet m.id
  triggers : ∀ source ∈ r.sourceTables, ∀ e, db.triggersOn source e = [Plan.triggerOf r source e]
  held : ∀ m ∈ r.mirrors, ∃ t u, db.tables m.source = some t ∧ t.Keyed ∧ t.primary = m.idColumn ∧
    db.tables m.id = some u ∧ m.Holds like (r.mirrorsFor m.source) t u

namespace InStep

variable {like : V → Text → Bool} {depth : Nat} {r : Registry} {db : Db V}

/-! ## After the plan -/

omit [DecidableEq V] in
/-- With its old triggers dropped, a source has none. -/
theorem quiet_source {start : Db V} (hn : Plan.Named start)
    (hmade : Plan.Made like r start r.mirrors db) {source : Text} (hs : source ∈ r.sourceTables) :
    db.Quiet source := by
  intro tr htr htable
  obtain ⟨m, hm, rfl⟩ := Registry.mem_sourceTables.1 hs
  obtain ⟨hstart, hdone⟩ := hmade.triggers tr htr
  have hname := hn tr hstart
  rw [htable] at hname
  exact (hdone m hm).2 tr.event hname

theorem statements_ofRegistry (r : Registry) : (Plan.ofRegistry r).statements =
    (r.mirrors.map fun m => Plan.mirrorPlan m (Plan.earlierClaims r m)).flatMap
        MirrorPlan.statements ++
      (Plan.triggersOf r).flatMap fun t =>
        [.dropTrigger t.name, .createTrigger t.name t.event t.table t.body] := by
  unfold Plan.statements Plan.ofRegistry Plan.triggersOf
  congr 1
  rw [List.flatMap_assoc, List.flatMap_assoc]
  congr 1

omit [DecidableEq V] in
/-- The triggers of a source are those that the plan has made, and no others. -/
theorem triggersOn_append {source : Text} {old : List Trigger}
    (hs : source ∈ r.sourceTables) (hold : ∀ t ∈ old, t.table ≠ source) (e : Event)
    (tables : Text → Option (Table V)) :
    (⟨tables, old ++ Plan.triggersOf r⟩ : Db V).triggersOn source e =
      [Plan.triggerOf r source e] := by
  have hnone : old.filter (fun t => t.table = source ∧ t.event = e) = [] := by
    rw [List.filter_eq_nil_iff]
    intro t ht
    simp [hold t ht]
  have hnodup : (Plan.triggersOf r).Nodup := (Plan.nodup_names_triggersOf r).of_map
  show (old ++ Plan.triggersOf r).filter _ = _
  rw [List.filter_append, hnone, List.nil_append]
  apply List.perm_singleton.1
  rw [List.perm_ext_iff_of_nodup (hnodup.filter _) (List.nodup_singleton _)]
  intro t
  rw [List.mem_filter, List.mem_singleton, decide_eq_true_eq]
  constructor
  · rintro ⟨ht, htable, hevent⟩
    obtain ⟨source', -, e', rfl⟩ := Plan.mem_triggersOf.1 ht
    rw [← htable, ← hevent]
    rfl
  · rintro rfl
    exact ⟨Plan.mem_triggersOf.2 ⟨source, hs, e, rfl⟩, rfl, rfl⟩

/-- The plan of a registry can be run, changes nothing but mirrors, and brings them in step. -/
theorem of_plan {start : Db V} (hr : r.Regular) (hs : r.Sourced start)
    (hn : Plan.Named start) :
    ∃ db, runStatements like depth (Plan.ofRegistry r).statements start = some db ∧
      (∀ x, x ∉ r.mirrors.map (·.id) → db.tables x = start.tables x) ∧ InStep like r db := by
  have hnothing : Plan.Made like r start [] start := ⟨by simp, by simp, by simp⟩
  obtain ⟨made, hrun, hmade⟩ : ∃ made, runStatements like depth ((r.mirrors.map fun m =>
      Plan.mirrorPlan m (Plan.earlierClaims r m)).flatMap MirrorPlan.statements) start = some made ∧
        Plan.Made like r start r.mirrors made :=
    Plan.run_mirrorPlans hr hs rfl hnothing
  have hsource : ∀ m ∈ r.mirrors, made.tables m.source = start.tables m.source := by
    intro m hm
    exact hmade.tables m.source (hr.not_mem_ids (Registry.mem_sourceTables.2 ⟨m, hm, rfl⟩))
  have htables : ∀ t ∈ Plan.triggersOf r, (made.tables t.table).isSome := by
    intro t ht
    obtain ⟨source, hsrc, e, rfl⟩ := Plan.mem_triggersOf.1 ht
    obtain ⟨m, hm, rfl⟩ := Registry.mem_sourceTables.1 hsrc
    obtain ⟨t, ht, -, -⟩ := hs m hm
    show (made.tables m.source).isSome
    rw [hsource m hm, ht]
    rfl
  let kept := made.triggers.filter (·.name ∉ (Plan.triggersOf r).map (·.name))
  refine ⟨⟨made.tables, kept ++ Plan.triggersOf r⟩, ?_, hmade.tables, ?_, ?_, ?_⟩
  · rw [statements_ofRegistry, Plan.runStatements_append, hrun]
    exact Plan.run_triggers (Plan.nodup_names_triggersOf r) htables
  · intro m hm tr htr
    rcases List.mem_append.1 htr with htr | htr
    · exact ((hmade.triggers tr (List.mem_of_mem_filter htr)).2 m hm).1
    · obtain ⟨source, hsrc, e, rfl⟩ := Plan.mem_triggersOf.1 htr
      exact (hr.id_ne_source hm hsrc).symm
  · intro source hsrc e
    have hkept : ∀ t ∈ kept, t.table ≠ source :=
      fun t ht => quiet_source hn hmade hsrc t (List.mem_of_mem_filter ht)
    exact triggersOn_append hsrc hkept e made.tables
  · intro m hm
    obtain ⟨t, ht, hkeyed, hp⟩ := hs m hm
    obtain ⟨t', ht', hu⟩ := hmade.mirrors m hm
    obtain rfl : t = t' := Option.some.inj (ht.symm.trans ht')
    exact ⟨t, _, (hsource m hm).trans ht, hkeyed, hp, hu, Mirror.Holds.filled hkeyed hp⟩

omit [DecidableEq V] in
theorem sourced (h : InStep like r db) : r.Sourced db := by
  intro m hm
  obtain ⟨t, -, ht, hkeyed, hp, -⟩ := h.held m hm
  exact ⟨t, ht, hkeyed, hp⟩

variable (depth) in
/-- Whatever plans have been run before, of this registry or of others, the plan can be run once more,
and what it leaves has been reached in the same way. -/
theorem of_reached (hr : r.Regular) (hs : r.Sourced db) (h : Plan.Reached like db) :
    ∃ db', runStatements like depth (Plan.ofRegistry r).statements db = some db' ∧
      InStep like r db' ∧ Plan.Reached like db' ∧
      ∀ x ∈ r.sourceTables, db'.tables x = db.tables x := by
  obtain ⟨db', hrun, hothers, hstep⟩ := of_plan hr hs h.named
  exact ⟨db', hrun, hstep, h.statements (List.Subset.refl _) hrun,
    fun x hx => hothers x (hr.not_mem_ids hx)⟩

/-! ## After a write -/

/-- A change of one row runs the trigger that is there for it. -/
theorem change_of_trigger {source : Text} {e : Effect V} {t t' : Table V} {c : Change V}
    (hon : db.triggersOn source c.event = [Plan.triggerOf r source c.event])
    (ht : db.tables source = some t) (he : e t = some (t', [c])) :
    db.change (fire like (depth + 1)) source e =
      runActions like (fire like depth) c.scope
        (bodyActions like c.scope (Plan.triggerBody c.event (r.mirrorsFor source)))
        (db.put source t') := by
  have hput : (db.put source t').triggersOn source c.event = [Plan.triggerOf r source c.event] := hon
  have hfire : fire like (depth + 1) source c (db.put source t') =
      runBody like (fire like depth) c.scope
        (Plan.triggerBody c.event (r.mirrorsFor source)) (db.put source t') := by
    rw [fire, hput, List.foldlM_cons]
    exact bind_pure _
  rw [Db.change_eq _ ht he]
  show (fire like (depth + 1) source c (db.put source t')).bind _ = _
  rw [hfire]
  exact bind_pure (m := Option) _

/-- A row of a source changes.  Each mirror of the source goes its own way, if its actions do not fail
there, and all other tables stay as they are. -/
theorem exists_of_change {source : Text} {e : Effect V} {t t' : Table V} {c : Change V}
    (hr : r.Regular) (hs : source ∈ r.sourceTables)
    (hquiets : ∀ m ∈ r.mirrors, m.source = source → db.Quiet m.id)
    (hon : db.triggersOn source c.event = [Plan.triggerOf r source c.event])
    (ht : db.tables source = some t) (he : e t = some (t', [c]))
    (hevolve : ∀ m ∈ r.mirrors, m.source = source → ∃ u u', db.tables m.id = some u ∧
      evolve like c.scope (Plan.mirrorActions like (r.mirrorsFor source) m c.event c.scope) u =
        some u') :
    ∃ db', db.change (fire like (depth + 1)) source e = some db' ∧ db'.triggers = db.triggers ∧
      (∀ m ∈ r.mirrors, m.source = source → db'.tables m.id = (db.tables m.id).bind
        (evolve like c.scope (Plan.mirrorActions like (r.mirrorsFor source) m c.event c.scope))) ∧
      ∀ x, (∀ m ∈ r.mirrors, m.source = source → m.id ≠ x) →
        db'.tables x = (db.put source t').tables x := by
  obtain ⟨m₀, hm₀, rfl⟩ := Registry.mem_sourceTables.1 hs
  rw [change_of_trigger hon ht he]
  let actions := bodyActions like c.scope (Plan.triggerBody c.event (r.mirrorsFor m₀.source))
  have htable : ∀ a ∈ actions, ∃ x ∈ r.mirrors, x.source = m₀.source ∧ a.table = x.id := by
    intro a ha
    obtain ⟨x, hx, hax⟩ :=
      Plan.table_of_mem_bodyActions (hr.keyColumn_eq hm₀) ha
    obtain ⟨hx, hxs⟩ := Registry.Regular.mem_mirrorsFor.1 hx
    exact ⟨x, hx, hxs, hax⟩
  have hput : ∀ m ∈ r.mirrors, (db.put m₀.source t').tables m.id = db.tables m.id := by
    intro m hm
    rw [Db.put_tables, if_neg (hr.apart m₀ hm₀ m hm).symm]
  have hactions : ∀ m ∈ r.mirrors, m.source = m₀.source → actionsOn m.id actions =
      Plan.mirrorActions like (r.mirrorsFor m₀.source) m c.event c.scope := by
    intro m hm hms
    exact Plan.actionsOn_bodyActions c.event (hr.ids_mirrorsFor m₀.source)
      (hms ▸ hr.keyColumn_eq hm) (Registry.Regular.mem_mirrorsFor.2 ⟨hm, hms⟩)
  have hquiet : ∀ a ∈ actions, (db.put m₀.source t').Quiet a.table := by
    intro a ha
    obtain ⟨x, hx, hxs, hax⟩ := htable a ha
    rw [hax]
    exact hquiets x hx hxs
  have hok : ∀ a ∈ actions, ∃ u, (db.put m₀.source t').tables a.table = some u ∧
      (evolve like c.scope (actionsOn a.table actions) u).isSome := by
    intro a ha
    obtain ⟨x, hx, hxs, hax⟩ := htable a ha
    obtain ⟨u, u', hu, hu'⟩ := hevolve x hx hxs
    exact ⟨u, by rw [hax, hput x hx, hu], by rw [hax, hactions x hx hxs, hu']; rfl⟩
  obtain ⟨db', hrun, htr, htab⟩ : ∃ db', runActions like (fire like depth) c.scope actions
      (db.put m₀.source t') = some db' ∧ db'.triggers = db.triggers ∧
        ∀ x, db'.tables x = ((db.put m₀.source t').tables x).bind
          (evolve like c.scope (actionsOn x actions)) := runActions_of_quiet hquiet hok
  refine ⟨db', hrun, htr, ?_, ?_⟩
  · intro m hm hms
    rw [htab, hput m hm, hactions m hm hms]
  · intro x hx
    have hnone : actionsOn x actions = [] := by
      apply actionsOn_eq_nil
      intro a ha
      obtain ⟨y, hy, hys, hay⟩ := htable a ha
      rw [hay]
      exact hx y hy hys
    rw [htab x, hnone]
    cases (db.put m₀.source t').tables x <;> rfl

/-- A row of a source changes, and the mirrors with it. -/
theorem step_of_change {source : Text} {e : Effect V} {t t' : Table V} {c : Change V}
    (h : InStep like r db) (hr : r.Regular) (hs : source ∈ r.sourceTables)
    (ht : db.tables source = some t) (hkeyed : t.Keyed) (he : e t = some (t', [c]))
    (hc : c.Within t) (hex : t.Exchange t' (c.id t.primary) c.added) :
    ∃ db', db.change (fire like (depth + 1)) source e = some db' ∧ InStep like r db' ∧
      ∀ x ∈ r.sourceTables, db'.tables x = (db.put source t').tables x := by
  have hmirror : ∀ m ∈ r.mirrors, m.source = source → t.primary = m.idColumn ∧
      ∃ u u', db.tables m.id = some u ∧
        evolve like c.scope (Plan.mirrorActions like (r.mirrorsFor source) m c.event c.scope) u =
          some u' ∧
        m.Holds like (r.mirrorsFor source) t' u' := by
    rintro m hm rfl
    obtain ⟨t₁, u, ht₁, -, hp, hu, hheld⟩ := h.held m hm
    obtain rfl : t = t₁ := Option.some.inj (ht.symm.trans ht₁)
    obtain ⟨u', hu', hheld'⟩ :=
      Plan.evolve_mirrorActions hheld hkeyed hp (hr.keyColumn_eq hm) hc hex
    exact ⟨hp, u, u', hu, hu', hheld'⟩
  obtain ⟨db', hrun, htr, hown, hother⟩ := exists_of_change hr hs (fun m hm _ => h.quiet m hm)
    (h.triggers source hs c.event) ht he fun m hm hms => by
      obtain ⟨-, u, u', hu, hu', -⟩ := hmirror m hm hms
      exact ⟨u, u', hu, hu'⟩
  have hsource : ∀ m ∈ r.mirrors, ∀ x ∈ r.mirrors, m.source ≠ x.id := hr.apart
  have hsources : ∀ m ∈ r.mirrors, db'.tables m.source = (db.put source t').tables m.source :=
    fun m hm => hother m.source fun x hx _ => (hsource m hm x hx).symm
  obtain ⟨m₀, hm₀, rfl⟩ := Registry.mem_sourceTables.1 hs
  refine ⟨db', hrun, ⟨?_, ?_, ?_⟩, ?_⟩
  · intro m hm tr hmem
    rw [htr] at hmem
    exact h.quiet m hm tr hmem
  · intro source hsrc e
    unfold Db.triggersOn
    rw [htr]
    exact h.triggers source hsrc e
  · intro m hm
    by_cases hms : m.source = m₀.source
    · obtain ⟨hp, u, u', hu, hu', hheld⟩ := hmirror m hm hms
      refine ⟨t', u', ?_, hex.keyed, hex.primary.trans hp, ?_, hms ▸ hheld⟩
      · rw [hsources m hm, hms]
        simp
      · rw [hown m hm hms, hu]
        exact hu'
    · obtain ⟨t₁, u, ht₁, hk, hp, hu, hheld⟩ := h.held m hm
      refine ⟨t₁, u, ?_, hk, hp, ?_, hheld⟩
      · rw [hsources m hm, Db.put_tables, if_neg hms, ht₁]
      · rw [hother m.id, Db.put_tables, if_neg (hsource m₀ hm₀ m hm).symm, hu]
        intro x hx hxs hid
        exact hms (List.inj_on_of_nodup_map hr.ids hx hm hid ▸ hxs)
  · intro x hx
    obtain ⟨m, hm, rfl⟩ := Registry.mem_sourceTables.1 hx
    exact hsources m hm

/-- A write of the host can be carried out as if there were no triggers, and all stays in step. -/
theorem step {w : Write V} {t t' : Table V} {cs : List (Change V)} (h : InStep like r db)
    (hr : r.Regular) (hs : w.table ∈ r.sourceTables) (ht : db.tables w.table = some t)
    (hkeeps : w.KeepsId t.primary) (he : w.effect t = some (t', cs)) :
    ∃ db', db.change (fire like (depth + 1)) w.table w.effect = some db' ∧ InStep like r db' ∧
      ∀ x ∈ r.sourceTables, db'.tables x = (db.put w.table t').tables x := by
  obtain ⟨m₀, hm₀, hsrc⟩ := Registry.mem_sourceTables.1 hs
  have hkeyed : t.Keyed := (h.sourced.keyed hm₀ (hsrc ▸ ht)).1
  rcases Write.effect_of_keyed hkeyed hkeeps he with ⟨rfl, hfree, hex⟩ | ⟨c, rfl, hc, hid, hex⟩
  · -- no row has changed, neither here nor in the mirrors
    refine ⟨db.put w.table t', ?_, ⟨h.quiet, h.triggers, ?_⟩, fun _ _ => rfl⟩
    · exact Db.change_eq _ ht he
    · intro m hm
      obtain ⟨t₁, u, ht₁, hk, hp, hu, hheld⟩ := h.held m hm
      have hmu : (db.put w.table t').tables m.id = some u := by
        rw [Db.put_tables, if_neg (hsrc ▸ (hr.apart m₀ hm₀ m hm).symm), hu]
      by_cases hsame : m.source = w.table
      · obtain rfl : t = t₁ := Option.some.inj (ht.symm.trans (hsame ▸ ht₁))
        refine ⟨t', u, by simp [hsame], hex.keyed, hex.primary.trans hp, hmu, ?_⟩
        have hfree' := hheld.fresh hp fun x hx _ => hfree x hx
        exact hheld.exchange hp hex (hheld.keyed.exchange_self hfree')
      · exact ⟨t₁, u, by simp [hsame, ht₁], hk, hp, hmu, hheld⟩
  · exact h.step_of_change hr hs ht hkeyed he hc (hid ▸ hex)

/-- After any writes that the sources by themselves could take. -/
theorem run {ws : List (Write V)} {plain plain' : Db V} (h : InStep like r db)
    (hr : r.Regular) (hws : ∀ w ∈ ws, w.table ∈ r.sourceTables ∧
      ∀ m ∈ r.mirrors, m.source = w.table → w.KeepsId m.idColumn)
    (hagree : ∀ x ∈ r.sourceTables, db.tables x = plain.tables x)
    (hrun : runWrites ignore ws plain = some plain') :
    ∃ db', runWrites (fire like (depth + 1)) ws db = some db' ∧ InStep like r db' ∧
      ∀ x ∈ r.sourceTables, db'.tables x = plain'.tables x := by
  induction ws generalizing db plain with
  | nil =>
    cases hrun
    exact ⟨db, rfl, h, hagree⟩
  | cons w ws ih =>
    obtain ⟨hs, hkeeps⟩ := hws w List.mem_cons_self
    obtain ⟨m, hm, hsrc⟩ := Registry.mem_sourceTables.1 hs
    obtain ⟨t, -, ht, -, hp, -⟩ := h.held m hm
    rw [hsrc] at ht
    rw [runWrites, List.foldlM_cons] at hrun
    obtain ⟨next, hnext, hrest⟩ := Option.bind_eq_some_iff.1 hrun
    obtain ⟨t₁, t', cs, ht₁, he, rfl⟩ := change_ignore hnext
    obtain rfl : t = t₁ := Option.some.inj (ht.symm.trans ((hagree _ hs).trans ht₁))
    obtain ⟨db₁, hstep, hin, htables⟩ := h.step hr hs ht (hp ▸ hkeeps m hm hsrc) he
    have hagree' : ∀ x ∈ r.sourceTables, db₁.tables x = (plain.put w.table t').tables x := by
      intro x hx
      rw [htables x hx, Db.put_tables, Db.put_tables, hagree x hx]
    obtain ⟨db', hdb', hin', htables'⟩ :=
      ih hin (fun w' hw' => hws w' (List.mem_cons_of_mem w hw')) hagree' hrest
    refine ⟨db', ?_, hin', htables'⟩
    rw [runWrites, List.foldlM_cons, hstep]
    exact hdb'

/-! ## Round after round -/

/-- The plan is run and a host writes, by turns. -/
def runRounds (like : V → Text → Bool) (depth : Nat) (r : Registry)
    (rounds : List (List (Write V))) (db : Db V) : Option (Db V) :=
  rounds.foldlM (fun db ws => do
    let db' ← runStatements like depth (Plan.ofRegistry r).statements db
    runWrites (fire like (depth + 1)) ws db') db

/-- The plan can be run as often as one likes.  Each time the mirrors are made anew, and all stays in
step. -/
theorem rounds {rounds : List (List (Write V))} {plain plain' : Db V} (h : InStep like r db)
    (hreached : Plan.Reached like db) (hr : r.Regular)
    (hws : ∀ ws ∈ rounds, ∀ w ∈ ws, w.table ∈ r.sourceTables ∧
      ∀ m ∈ r.mirrors, m.source = w.table → w.KeepsId m.idColumn)
    (hagree : ∀ x ∈ r.sourceTables, db.tables x = plain.tables x)
    (hrun : runWrites ignore rounds.flatten plain = some plain') :
    ∃ db', runRounds like depth r rounds db = some db' ∧ InStep like r db' ∧
      ∀ x ∈ r.sourceTables, db'.tables x = plain'.tables x := by
  induction rounds generalizing db plain with
  | nil =>
    cases hrun
    exact ⟨db, rfl, h, hagree⟩
  | cons ws rounds ih =>
    rw [List.flatten_cons, runWrites, List.foldlM_append] at hrun
    obtain ⟨next, hnext, hrest⟩ := Option.bind_eq_some_iff.1 hrun
    obtain ⟨made, hplan, hmade, hreached', hsame⟩ := of_reached depth hr h.sourced hreached
    obtain ⟨db₁, hwrites, hin, hagree₁⟩ := hmade.run hr (hws ws List.mem_cons_self)
      (fun x hx => (hsame x hx).trans (hagree x hx)) hnext
    obtain ⟨db', hrounds, hin', hagree'⟩ := ih hin (hreached'.writes hwrites)
      (fun ws' hws' => hws ws' (List.mem_cons_of_mem ws hws')) hagree₁ hrest
    refine ⟨db', ?_, hin', hagree'⟩
    rw [runRounds, List.foldlM_cons, hplan]
    show (runWrites (fire like (depth + 1)) ws made).bind _ = _
    rw [hwrites]
    exact hrounds

end InStep

/-- What registration leads to, if the columns of a source are distinct and no mirror is the source of
another. -/
theorem Registered.regular_of_distinct {c : Catalog} {s : Setup} (h : Registered c s)
    (hdistinct : ∀ m ∈ s.mirrors, (Plan.columnsOf m).names.Nodup)
    (hapart : ∀ m ∈ s.mirrors, m.id ∉ s.finalize.sourceTables) : s.finalize.Regular := by
  refine ⟨h.nodup_ids, fun m hm m' hm' => h.columnsOf_eq hm hm', hdistinct, ?_⟩
  intro m hm m' hm' heq
  exact hapart m' hm' (Registry.mem_sourceTables.2 ⟨m, hm, heq⟩)

/-- The columns are distinct if they are so in the tables of the catalog. -/
theorem Registered.regular {c : Catalog} {s : Setup} (h : Registered c s)
    (hcolumns : ∀ t ∈ c.tables, [t.idColumn, t.objectColumn, t.keyColumn, t.valueColumn].Nodup)
    (hapart : ∀ m ∈ s.mirrors, m.id ∉ s.finalize.sourceTables) : s.finalize.Regular := by
  refine h.regular_of_distinct ?_ hapart
  intro m hm
  obtain ⟨t, ht, hc⟩ := h.columns_of_catalog m hm
  rw [hc]
  exact hcolumns t (Catalog.mem_of_get? ht)

/-- The plan of a registry can be run on any database with keyed sources, whatever tables stand under
the names of its mirrors and whatever triggers earlier plans have left.  After that, and after any
writes that the sources could take without it, the sources are what they would be without it, and
each mirror has the rows of its source that it owns, and no others. -/
theorem mirrors_in_step {c : Catalog} {s : Setup} (h : Registered c s)
    (hcolumns : ∀ t ∈ c.tables, [t.idColumn, t.objectColumn, t.keyColumn, t.valueColumn].Nodup)
    (hapart : ∀ m ∈ s.mirrors, m.id ∉ s.finalize.sourceTables)
    (like : V → Text → Bool) (depth : Nat) {db : Db V} (hnamed : Plan.Named db)
    (hsourced : s.finalize.Sourced db) :
    ∃ db₁, runStatements like depth (Plan.ofRegistry s.finalize).statements db = some db₁ ∧
      ∀ ws : List (Write V), (∀ w ∈ ws, w.table ∈ s.finalize.sourceTables ∧
          ∀ m ∈ s.mirrors, m.source = w.table → w.KeepsId m.idColumn) →
        ∀ plain, runWrites ignore ws db = some plain →
          ∃ db₂, runWrites (fire like (depth + 1)) ws db₁ = some db₂ ∧
            (∀ x ∈ s.finalize.sourceTables, db₂.tables x = plain.tables x) ∧
            ∀ m ∈ s.mirrors, ∃ t u, plain.tables m.source = some t ∧ db₂.tables m.id = some u ∧
              u.rows.Perm (m.ownedRows like (s.finalize.mirrorsFor m.source) t.rows) := by
  have hr : s.finalize.Regular := h.regular hcolumns hapart
  obtain ⟨db₁, hplan, hothers, hin⟩ := InStep.of_plan hr hsourced hnamed
  refine ⟨db₁, hplan, ?_⟩
  intro ws hws plain hplain
  have hagree : ∀ x ∈ s.finalize.sourceTables, db₁.tables x = db.tables x :=
    fun x hx => hothers x (hr.not_mem_ids hx)
  obtain ⟨db₂, hrun, hin₂, htables⟩ := hin.run hr hws hagree hplain
  refine ⟨db₂, hrun, htables, ?_⟩
  intro m hm
  obtain ⟨t, u, ht, hkeyed, hp, hu, hheld⟩ := hin₂.held m hm
  rw [htables _ (Registry.mem_sourceTables.2 ⟨m, hm, rfl⟩)] at ht
  exact ⟨t, u, ht, hu, hheld.perm hkeyed hp⟩

/-! ## An example -/

namespace Sample

/-- A row with an id and a key. -/
def row (id key : Text) : Row Text := fun c =>
  if c = "meta_id".toList then some id else if c = "meta_key".toList then some key else none

def posts : Table Text := ⟨"meta_id".toList, [row ['1'] "colour".toList, row ['2'] "size".toList]⟩

/-- The posts, a table under the name of the mirror and a trigger that is left from before. -/
def database : Db Text where
  tables := fun x =>
    if x = "wp_postmeta".toList then some posts
    else if x = colours.id then some ⟨"meta_id".toList, [row ['7'] ['?']]⟩ else none
  triggers := [⟨"delete_mm_wp_postmeta".toList, .delete, "wp_postmeta".toList, []⟩]

theorem named_database : Plan.Named database := by
  intro t ht
  rw [List.mem_singleton.1 ht]
  decide

theorem sourced_database : setup.finalize.Sourced database := by
  intro m hm
  rw [List.mem_singleton.1 hm]
  exact ⟨posts, rfl, ⟨by decide, by decide⟩, rfl⟩

end Sample

open Sample in
/-- The second of two rows changes its key to that of the first. -/
theorem mirrors_in_step_sample : ∃ db₁ db₂ u,
    runStatements (fun v p => v == p) 0 (Plan.ofRegistry setup.finalize).statements database =
      some db₁ ∧
    runWrites (fire (fun v p => v == p) 1)
      [.update "wp_postmeta".toList ['2'] (row ['2'] "colour".toList)] db₁ = some db₂ ∧
    db₂.tables colours.id = some u ∧
    (u.rows.map (· "meta_id".toList)).Perm [some ['1'], some ['2']] := by
  obtain ⟨db₁, hplan, hwrites⟩ := mirrors_in_step registered (by decide) (by decide)
    (fun v p => v == p) 0 named_database sourced_database
  have hws : ∀ w ∈ [Write.update "wp_postmeta".toList ['2'] (row ['2'] "colour".toList)],
      w.table ∈ setup.finalize.sourceTables ∧
        ∀ m ∈ setup.mirrors, m.source = w.table → w.KeepsId m.idColumn := by
    intro w hw
    rw [List.mem_singleton.1 hw]
    refine ⟨by decide, ?_⟩
    intro m hm _
    rw [List.mem_singleton.1 hm]
    rfl
  obtain ⟨db₂, hrun, -, hheld⟩ := hwrites _ hws _ rfl
  obtain ⟨t, u, ht, hu, hperm⟩ := hheld colours List.mem_cons_self
  refine ⟨db₁, db₂, u, hplan, hrun, hu, ?_⟩
  have hmap := hperm.map (· "meta_id".toList)
  cases ht
  exact hmap

end TypedMirror
