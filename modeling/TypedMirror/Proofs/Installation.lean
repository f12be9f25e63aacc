import TypedMirror.Proofs.Upkeep

/-!
# What running a plan leaves

The statements of a plan are run on any database whose sources are keyed: there may be tables under
the names of the mirrors, and triggers that earlier plans have left.

* `Reached.named` — the triggers that plans have left, however many there have been;
* `run_mirrorPlan` — one mirror is dropped, created and filled with what it owns;
* `run_mirrorPlans` — all mirrors, none disturbing another or a source;
* `run_triggers` — all triggers, each in place of any of its name.
-/

namespace TypedMirror

open Sql

variable {V : Type} [DecidableEq V] {like : V → Text → Bool} {depth : Nat}

namespace Plan

/-! ## Names of triggers -/

theorem length_word (e : Event) : e.word.length = 6 := by cases e <;> rfl

theorem word_injective {e e' : Event} (h : e.word = e'.word) : e = e' := by
  cases e <;> cases e' <;> first | rfl | exact absurd h (by decide)

/-- A trigger's name says what it follows. -/
theorem triggerName_inj {e e' : Event} {source source' : Text} :
    triggerName e source = triggerName e' source' ↔ e = e' ∧ source = source' := by
  constructor
  · intro h
    unfold triggerName at h
    rw [List.append_assoc, List.append_assoc] at h
    obtain ⟨hw, hs⟩ := List.append_inj h (by rw [length_word, length_word])
    exact ⟨word_injective hw, List.append_cancel_left hs⟩
  · rintro ⟨rfl, rfl⟩
    rfl

/-- Every trigger of the database is named as plans name theirs. -/
def Named (db : Db V) : Prop := ∀ t ∈ db.triggers, t.name = triggerName t.event t.table

theorem name_of_mem_statements {r : Registry} {name source : Text} {e : Event}
    {body : List BodyPart}
    (h : .createTrigger name e source body ∈ (ofRegistry r).statements) :
    name = triggerName e source := by
  rcases List.mem_append.1 h with h | h
  · obtain ⟨p, hp, h⟩ := List.mem_flatMap.1 h
    obtain ⟨m, -, rfl⟩ := List.mem_map.1 hp
    simp [MirrorPlan.statements, mirrorPlan] at h
  · obtain ⟨p, hp, h⟩ := List.mem_flatMap.1 h
    obtain ⟨source', -, hp⟩ := List.mem_flatMap.1 hp
    obtain ⟨e', -, rfl⟩ := List.mem_map.1 hp
    rcases List.mem_cons.1 h with h | h
    · cases h
    · cases List.mem_singleton.1 h
      rfl

/-- The triggers that any part of a plan leaves are named in this way. -/
theorem Named.run {r : Registry} {ss : List Statement} {db db' : Db V}
    (h : Named db) (hss : ss ⊆ (ofRegistry r).statements)
    (hrun : runStatements like depth ss db = some db') : Named db' := by
  induction ss generalizing db with
  | nil =>
    cases hrun
    exact h
  | cons s ss ih =>
    rw [runStatements, List.foldlM_cons] at hrun
    obtain ⟨db₁, hs, hrun⟩ := Option.bind_eq_some_iff.1 hrun
    refine ih ?_ (List.subset_of_cons_subset hss) hrun
    cases s with
    | dropTrigger name =>
      cases hs
      exact fun t ht => h t (List.mem_of_mem_filter ht)
    | dropTable table =>
      cases hs
      exact fun t ht => h t (List.mem_of_mem_filter ht)
    | createTable table columns valueType =>
      simp only [Statement.run] at hs
      split at hs
      · cases hs
      · cases hs
        exact h
    | backfill table columns source condition =>
      obtain ⟨_, -, hs⟩ := Option.bind_eq_some_iff.1 hs
      obtain ⟨t, -, hs⟩ := Option.bind_eq_some_iff.1 hs
      have htr : db₁.triggers = db.triggers :=
        foldlM_triggers (fun _ _ _ hw => change_triggers (fun _ _ _ _ => fire_triggers) hw) hs
      unfold Named
      rw [htr]
      exact h
    | createTrigger name e source body =>
      simp only [Statement.run] at hs
      split at hs
      · cases hs
      · cases hs
        intro t ht
        rcases List.mem_append.1 ht with ht | ht
        · exact h t ht
        · rw [List.mem_singleton.1 ht]
          exact name_of_mem_statements (hss List.mem_cons_self)

/-- What becomes of a database without triggers as plans of any registries are run on it, in whole or
in part, and as hosts write to it. -/
inductive Reached (like : V → Text → Bool) : Db V → Prop
  | start {db : Db V} (h : db.triggers = []) : Reached like db
  | statements {db db' : Db V} {depth : Nat} {r : Registry} {ss : List Statement}
    (h : Reached like db) (hss : ss ⊆ (ofRegistry r).statements)
    (hrun : runStatements like depth ss db = some db') : Reached like db'
  | writes {db db' : Db V} {depth : Nat} {ws : List (Write V)} (h : Reached like db)
    (hrun : runWrites (fire like depth) ws db = some db') : Reached like db'

/-- Whatever has been run before, the triggers are named as plans name theirs. -/
theorem Reached.named {db : Db V} (h : Reached like db) : Named db := by
  induction h with
  | start h =>
    intro t ht
    rw [h] at ht
    cases ht
  | statements _ hss hrun ih => exact ih.run hss hrun
  | writes _ hrun ih =>
    unfold Named
    rw [foldlM_triggers (fun _ _ _ hw => change_triggers (fun _ _ _ _ => fire_triggers) hw) hrun]
    exact ih

/-! ## One mirror -/

variable {ms : List Mirror} {m : Mirror}

theorem runStatements_append (ss ss' : List Statement) (db : Db V) :
    runStatements like depth (ss ++ ss') db =
      (runStatements like depth ss db).bind (runStatements like depth ss') := by
  unfold runStatements
  rw [List.foldlM_append]
  rfl

theorem runStatements_cons {s : Statement} {ss : List Statement} {db db' : Db V}
    (h : s.run like depth db = some db') :
    runStatements like depth (s :: ss) db = runStatements like depth ss db' := by
  unfold runStatements
  rw [List.foldlM_cons, h]
  rfl

/-- Rows copied one after the other into a table without triggers, where their ids are free. -/
theorem foldlM_insert {columns : Columns} {table : Text} {taken rows : List (Row V)}
    {db : Db V} (hq : db.Quiet table) (ht : db.tables table = some ⟨columns.id, rows⟩)
    (hid : ∀ r ∈ taken, (r columns.id).isSome)
    (hnodup : ((rows ++ taken).map (· columns.id)).Nodup) :
    taken.foldlM (fun db r => db.change (fire like depth) table (.insert (r.only columns))) db =
      some (db.put table ⟨columns.id, rows ++ taken.map (Row.only columns)⟩) := by
  induction taken generalizing rows db with
  | nil =>
    rw [List.map_nil, List.append_nil, Db.put_self ht]
    rfl
  | cons r taken ih =>
    obtain ⟨i, hi⟩ := Option.isSome_iff_exists.1 (hid r List.mem_cons_self)
    have honly : Row.only columns r columns.id = r columns.id := by simp [Row.only, Columns.names]
    have hfree : ∀ x ∈ rows, x columns.id ≠ some i := by
      intro x hx hxi
      rw [List.map_append, List.nodup_append] at hnodup
      exact hnodup.2.2 _ (List.mem_map_of_mem hx) _ (List.mem_map_of_mem List.mem_cons_self)
        (hxi.trans hi.symm)
    have hins := Effect.insert_of_fresh (t := ⟨columns.id, rows⟩) (honly.trans hi) hfree
    have ht' : (db.put table ⟨columns.id, rows ++ [Row.only columns r]⟩).tables table =
        some ⟨columns.id, rows ++ [Row.only columns r]⟩ := by simp
    have hnodup' : (((rows ++ [Row.only columns r]) ++ taken).map (· columns.id)).Nodup := by
      simpa [honly] using hnodup
    have hq' : (db.put table ⟨columns.id, rows ++ [Row.only columns r]⟩).Quiet table := hq
    rw [List.foldlM_cons, change_of_quiet hq ht hins]
    refine (ih hq' ht' (fun x hx => hid x (List.mem_cons_of_mem r hx)) hnodup').trans ?_
    rw [Db.put_put, List.append_assoc]
    rfl

/-- The rows that the backfill takes are those that the mirror owns. -/
theorem filter_backfill (hkey : ∀ x ∈ ms, x.keyColumn = m.keyColumn) (rows : List (Row V)) :
    rows.filter (fun r => (claimCondition m (claimsBefore ms m) none).all
        (·.holds like (Scope.at r))) =
      rows.filter fun r => m.owns like ms (r m.keyColumn) := by
  apply List.filter_congr
  intro r _
  cases hm : m.isUnfiltered with
  | true =>
    have hnone : claimCondition m (claimsBefore ms m) none = none := by
      unfold claimCondition
      rw [if_pos hm]
    rw [hnone, Mirror.owns_of_isUnfiltered hm]
    rfl
  | false =>
    obtain ⟨c, hc⟩ := claimCondition_eq_some hm (claimsBefore ms m) none
    rw [hc, Option.all_some, holds_claimCondition hkey hc]
    rfl

/-- The backfill takes over what the mirror owns, into a table that is empty and has no triggers. -/
theorem run_backfill {t : Table V} {db : Db V} (hkey : ∀ x ∈ ms, x.keyColumn = m.keyColumn)
    (hquiet : db.Quiet m.id) (htable : db.tables m.id = some ⟨m.idColumn, []⟩)
    (ht : db.tables m.source = some t) (hkeyed : t.Keyed) (hp : t.primary = m.idColumn) :
    (mirrorPlan m (claimsBefore ms m)).backfill.run like depth db =
      some (db.put m.id ⟨m.idColumn, m.ownedRows like ms t.rows⟩) := by
  have hid : ∀ r ∈ t.rows.filter (fun r => m.owns like ms (r m.keyColumn)),
      (r m.idColumn).isSome := by
    intro r hr
    rw [← hp]
    exact hkeyed.hasId r (List.mem_of_mem_filter hr)
  have hnodup : ((([] : List (Row V)) ++
      t.rows.filter fun r => m.owns like ms (r m.keyColumn)).map (· m.idColumn)).Nodup := by
    rw [List.nil_append, ← hp]
    exact hkeyed.nodup.sublist (List.filter_sublist.map _)
  show (db.tables m.id).bind (fun _ => (db.tables m.source).bind fun t =>
    (t.rows.filter _).foldlM _ db) = _
  rw [htable, ht, Option.bind_some, Option.bind_some, filter_backfill hkey]
  refine (foldlM_insert hquiet htable hid hnodup).trans ?_
  rw [List.nil_append]
  rfl

/-- The database in which a mirror has been made anew. -/
def made (like : V → Text → Bool) (ms : List Mirror) (m : Mirror) (t : Table V) (db : Db V) :
    Db V where
  tables := Function.update db.tables m.id (some ⟨m.idColumn, m.ownedRows like ms t.rows⟩)
  triggers := db.triggers.filter fun tr =>
    tr.name ∉ Event.all.map (triggerName · m.source) ∧ tr.table ≠ m.id

/-- One mirror is dropped with the triggers of its source, created and filled. -/
theorem run_mirrorPlan {t : Table V} {db : Db V} (hkey : ∀ x ∈ ms, x.keyColumn = m.keyColumn)
    (hcols : (columnsOf m).names.Nodup) (hne : m.source ≠ m.id) (ht : db.tables m.source = some t)
    (hkeyed : t.Keyed) (hp : t.primary = m.idColumn) :
    runStatements like depth (mirrorPlan m (claimsBefore ms m)).statements db =
      some (made like ms m t db) := by
  let bare : Db V :=
    { made like ms m t db with tables := Function.update db.tables m.id none }
  let empty : Db V :=
    { made like ms m t db with tables := Function.update db.tables m.id (some ⟨m.idColumn, []⟩) }
  have hdrops : runStatements like depth (mirrorPlan m (claimsBefore ms m)).drops db = some bare := by
    show some (⟨Function.update db.tables m.id none, _⟩ : Db V) = some ⟨_, _⟩
    congr 2
    simp only [List.filter_filter]
    apply List.filter_congr
    intro tr _
    grind [Event.all]
  have hcreate : (mirrorPlan m (claimsBefore ms m)).create.run like depth bare = some empty := by
    show (if (Function.update db.tables m.id none m.id).isSome ∨ ¬ (columnsOf m).names.Nodup then none
      else some (bare.put m.id ⟨m.idColumn, []⟩)) = _
    rw [if_neg (by simp [hcols])]
    simp [bare, empty, Db.put]
  have hbackfill : (mirrorPlan m (claimsBefore ms m)).backfill.run like depth empty =
      some (made like ms m t db) := by
    have hquiet : empty.Quiet m.id := by
      intro tr htr
      have := (List.mem_filter.1 htr).2
      exact (by simpa using this : _ ∧ _).2
    have htable : empty.tables m.id = some ⟨m.idColumn, []⟩ := by simp [empty]
    have hsource : empty.tables m.source = some t := by simp [empty, hne, ht]
    rw [run_backfill hkey hquiet htable hsource hkeyed hp]
    simp [empty, Db.put, made]
  rw [MirrorPlan.statements, runStatements_append, hdrops, Option.bind_some,
    runStatements_cons hcreate, runStatements_cons hbackfill]
  rfl

end Plan

/-! ## All mirrors -/

/-- What registration gives, and what a host has to see to: the columns of a source are distinct, and
no mirror is the source of another. -/
structure Registry.Regular (r : Registry) : Prop where
  ids : (r.mirrors.map (·.id)).Nodup
  columns : ∀ m ∈ r.mirrors, ∀ m' ∈ r.mirrors, m.source = m'.source →
    Plan.columnsOf m = Plan.columnsOf m'
  distinct : ∀ m ∈ r.mirrors, (Plan.columnsOf m).names.Nodup
  apart : ∀ m ∈ r.mirrors, ∀ m' ∈ r.mirrors, m.source ≠ m'.id

/-- The sources are there, and keyed by their id columns. -/
def Registry.Sourced (r : Registry) (db : Db V) : Prop :=
  ∀ m ∈ r.mirrors, ∃ t, db.tables m.source = some t ∧ t.Keyed ∧ t.primary = m.idColumn

omit [DecidableEq V] in
theorem Registry.Sourced.keyed {r : Registry} {db : Db V} {m : Mirror} {t : Table V}
    (h : r.Sourced db) (hm : m ∈ r.mirrors) (ht : db.tables m.source = some t) :
    t.Keyed ∧ t.primary = m.idColumn := by
  obtain ⟨t₀, ht₀, hkeyed, hp⟩ := h m hm
  obtain rfl : t = t₀ := Option.some.inj (ht.symm.trans ht₀)
  exact ⟨hkeyed, hp⟩

namespace Registry.Regular

variable {r : Registry} {m x : Mirror}

theorem mem_mirrorsFor {source : Text} :
    x ∈ r.mirrorsFor source ↔ x ∈ r.mirrors ∧ x.source = source := by
  simp [mirrorsFor]

theorem ids_mirrorsFor (h : r.Regular) (source : Text) :
    ((r.mirrorsFor source).map (·.id)).Nodup :=
  h.ids.sublist (List.filter_sublist.map _)

theorem keyColumn_eq (h : r.Regular) (hm : m ∈ r.mirrors) :
    ∀ x ∈ r.mirrorsFor m.source, x.keyColumn = m.keyColumn := by
  intro x hx
  obtain ⟨hx, hs⟩ := mem_mirrorsFor.1 hx
  exact congrArg Columns.key (h.columns x hx m hm hs)

end Registry.Regular

namespace Plan

variable {r : Registry}

/-- The database in which some of the mirrors have been made anew. -/
structure Made (like : V → Text → Bool) (r : Registry) (start : Db V) (done : List Mirror)
    (db : Db V) : Prop where
  tables : ∀ x, x ∉ done.map (·.id) → db.tables x = start.tables x
  mirrors : ∀ m ∈ done, ∃ t, start.tables m.source = some t ∧
    db.tables m.id = some ⟨m.idColumn, m.ownedRows like (r.mirrorsFor m.source) t.rows⟩
  triggers : ∀ tr ∈ db.triggers, tr ∈ start.triggers ∧
    ∀ m ∈ done, tr.table ≠ m.id ∧ ∀ e, tr.name ≠ triggerName e m.source

omit [DecidableEq V] in
/-- One more mirror. -/
theorem Made.step {start db : Db V} {done : List Mirror} {m : Mirror} {t : Table V}
    (h : Made like r start done db) (hnew : m.id ∉ done.map (·.id))
    (ht : start.tables m.source = some t) :
    Made like r start (done ++ [m]) (made like (r.mirrorsFor m.source) m t db) := by
  refine ⟨?_, ?_, ?_⟩
  · intro x hx
    rw [List.map_append, List.mem_append, not_or, List.map_singleton, List.mem_singleton] at hx
    rw [← h.tables x hx.1]
    exact Function.update_of_ne hx.2 _ _
  · intro x hx
    rcases List.mem_append.1 hx with hx | hx
    · obtain ⟨t', ht', hx'⟩ := h.mirrors x hx
      refine ⟨t', ht', ?_⟩
      rw [← hx']
      apply Function.update_of_ne
      rintro heq
      exact hnew (heq ▸ List.mem_map_of_mem hx)
    · rw [List.mem_singleton.1 hx]
      exact ⟨t, ht, Function.update_self _ _ _⟩
  · intro tr htr
    obtain ⟨htr, hkept⟩ := List.mem_filter.1 htr
    obtain ⟨hstart, hdone⟩ := h.triggers tr htr
    have hkept : tr.name ∉ Event.all.map (triggerName · m.source) ∧ tr.table ≠ m.id := by
      simpa using hkept
    refine ⟨hstart, ?_⟩
    intro x hx
    rcases List.mem_append.1 hx with hx | hx
    · exact hdone x hx
    · rw [List.mem_singleton.1 hx]
      refine ⟨hkept.2, ?_⟩
      intro e he
      apply hkept.1
      rw [he]
      cases e <;> simp [Event.all]

/-- The mirrors are made one after the other, and none disturbs another or a source. -/
theorem run_mirrorPlans {start db : Db V} {done rest : List Mirror} (hr : r.Regular)
    (hs : r.Sourced start) (hall : r.mirrors = done ++ rest) (h : Made like r start done db) :
    ∃ db', runStatements like depth
        ((rest.map fun m => mirrorPlan m (earlierClaims r m)).flatMap MirrorPlan.statements) db =
          some db' ∧ Made like r start r.mirrors db' := by
  induction rest generalizing done db with
  | nil =>
    rw [List.append_nil] at hall
    exact ⟨db, rfl, hall ▸ h⟩
  | cons m rest ih =>
    have hm : m ∈ r.mirrors := by simp [hall]
    obtain ⟨t, ht, hkeyed, hp⟩ := hs m hm
    have hnew : m.id ∉ done.map (·.id) := by
      have hids := hr.ids
      rw [hall, List.map_append, List.nodup_append] at hids
      intro hmem
      exact hids.2.2 _ hmem _ (List.mem_map_of_mem List.mem_cons_self) rfl
    have hsource : db.tables m.source = some t := by
      rw [h.tables, ht]
      intro hmem
      obtain ⟨x, hx, hxid⟩ := List.mem_map.1 hmem
      exact hr.apart m hm x (by simp [hall, hx]) hxid.symm
    have hrun : runStatements like depth (mirrorPlan m (earlierClaims r m)).statements db =
        some (made like (r.mirrorsFor m.source) m t db) :=
      run_mirrorPlan (hr.keyColumn_eq hm) (hr.distinct m hm) (hr.apart m hm m hm) hsource hkeyed hp
    obtain ⟨db', hrest, hmade⟩ := ih (by rw [hall, List.append_assoc]; rfl) (h.step hnew ht)
    refine ⟨db', ?_, hmade⟩
    rw [List.map_cons, List.flatMap_cons, runStatements_append, hrun]
    exact hrest

end Plan

/-! ## All triggers -/

namespace Registry

variable {ms : List Mirror} {source : Text}

/-- Sources are listed as they are first met. -/
theorem mem_foldl_sources (seen : List Text) :
    source ∈ ms.foldl
        (fun seen m => if seen.contains m.source then seen else seen ++ [m.source]) seen ↔
      source ∈ seen ∨ ∃ m ∈ ms, m.source = source := by
  induction ms generalizing seen with
  | nil => simp
  | cons m ms ih =>
    rw [List.foldl_cons, ih]
    by_cases hm : m.source ∈ seen
    · rw [if_pos (by simpa using hm), List.exists_mem_cons_iff]
      constructor
      · rintro (h | h)
        · exact .inl h
        · exact .inr (.inr h)
      · rintro (h | rfl | h)
        · exact .inl h
        · exact .inl hm
        · exact .inr h
    · rw [if_neg (by simpa using hm), List.mem_append, List.mem_singleton, List.exists_mem_cons_iff,
        or_assoc, eq_comm]

theorem nodup_foldl_sources {seen : List Text} (h : seen.Nodup) :
    (ms.foldl
      (fun seen m => if seen.contains m.source then seen else seen ++ [m.source]) seen).Nodup := by
  induction ms generalizing seen with
  | nil => exact h
  | cons m ms ih =>
    rw [List.foldl_cons]
    apply ih
    by_cases hm : m.source ∈ seen
    · rw [if_pos (by simpa using hm)]
      exact h
    · rw [if_neg (by simpa using hm), List.nodup_append]
      refine ⟨h, List.nodup_singleton _, ?_⟩
      rintro a ha b hb rfl
      exact hm (List.mem_singleton.1 hb ▸ ha)

theorem mem_sourcesOf : source ∈ sourcesOf ms ↔ source ∈ ms.map (·.source) := by
  unfold sourcesOf
  rw [mem_foldl_sources, List.mem_map]
  simp

theorem nodup_sourcesOf (ms : List Mirror) : (sourcesOf ms).Nodup :=
  nodup_foldl_sources List.nodup_nil

variable {r : Registry}

theorem mem_sourceTables : source ∈ r.sourceTables ↔ ∃ m ∈ r.mirrors, m.source = source :=
  mem_sourcesOf.trans List.mem_map

theorem nodup_sourceTables (r : Registry) : r.sourceTables.Nodup := nodup_sourcesOf r.mirrors

/-- No mirror is a source. -/
theorem Regular.id_ne_source (h : r.Regular) (hm : m ∈ r.mirrors)
    (hs : source ∈ r.sourceTables) : m.id ≠ source := by
  obtain ⟨x, hx, rfl⟩ := mem_sourceTables.1 hs
  exact (h.apart x hx m hm).symm

theorem Regular.not_mem_ids (h : r.Regular) (hs : source ∈ r.sourceTables) :
    source ∉ r.mirrors.map (·.id) := by
  intro hmem
  obtain ⟨m, hm, hid⟩ := List.mem_map.1 hmem
  exact h.id_ne_source hm hs hid

end Registry

namespace Plan

variable {r : Registry}

/-- The trigger of a source for an event. -/
def triggerOf (r : Registry) (source : Text) (e : Event) : Trigger :=
  ⟨triggerName e source, e, source, triggerBody e (r.mirrorsFor source)⟩

/-- The triggers of a registry. -/
def triggersOf (r : Registry) : List Trigger :=
  r.sourceTables.flatMap fun source => Event.all.map (triggerOf r source)

/-- What there is for each event of each source. -/
theorem mem_flatMap_events {α : Type} {f : Text → Event → α} {sources : List Text} {a : α} :
    a ∈ (sources.flatMap fun source => Event.all.map (f source)) ↔
      ∃ source ∈ sources, ∃ e, a = f source e := by
  rw [List.mem_flatMap]
  constructor
  · rintro ⟨source, hs, ha⟩
    obtain ⟨e, -, rfl⟩ := List.mem_map.1 ha
    exact ⟨source, hs, e, rfl⟩
  · rintro ⟨source, hs, e, rfl⟩
    exact ⟨source, hs, List.mem_map_of_mem (by cases e <;> simp [Event.all])⟩

theorem mem_triggersOf {t : Trigger} :
    t ∈ triggersOf r ↔ ∃ source ∈ r.sourceTables, ∃ e, t = triggerOf r source e :=
  mem_flatMap_events

/-- The triggers of a registry have different names. -/
theorem nodup_names_triggersOf (r : Registry) : ((triggersOf r).map (·.name)).Nodup := by
  have hnames : (triggersOf r).map (·.name) =
      r.sourceTables.flatMap fun source => Event.all.map (triggerName · source) := by
    rw [triggersOf, List.map_flatMap]
    rfl
  rw [hnames, List.nodup_flatMap]
  refine ⟨?_, ?_⟩
  · intro source _
    apply List.Nodup.map _ (by decide)
    intro e e' h
    exact (triggerName_inj.1 h).1
  · apply (Registry.nodup_sourceTables r).imp
    intro source source' hne name hn hn'
    obtain ⟨e, -, rfl⟩ := List.mem_map.1 hn
    obtain ⟨e', -, he'⟩ := List.mem_map.1 hn'
    exact hne (triggerName_inj.1 he').2.symm

theorem run_triggers {db : Db V} {ts : List Trigger} (hnames : (ts.map (·.name)).Nodup)
    (htables : ∀ t ∈ ts, (db.tables t.table).isSome) :
    runStatements like depth (ts.flatMap fun t =>
        [.dropTrigger t.name, .createTrigger t.name t.event t.table t.body]) db =
      some { db with triggers := db.triggers.filter (·.name ∉ ts.map (·.name)) ++ ts } := by
  induction ts generalizing db with
  | nil =>
    show some db = some _
    simp
  | cons t ts ih =>
    rw [List.map_cons, List.nodup_cons] at hnames
    let next : Db V := { db with triggers := db.triggers.filter (·.name ≠ t.name) ++ [t] }
    have hdrop : (Statement.dropTrigger t.name).run like depth db =
        some { db with triggers := db.triggers.filter (·.name ≠ t.name) } := rfl
    have hcreate : (Statement.createTrigger t.name t.event t.table t.body).run like depth
        { db with triggers := db.triggers.filter (·.name ≠ t.name) } = some next := by
      have htable : (db.tables t.table).isNone = false := by
        simpa using htables t List.mem_cons_self
      show (if _ ∨ _ then none else some _) = _
      rw [if_neg (by simp [htable])]
    have htables' : ∀ x ∈ ts, (next.tables x.table).isSome :=
      fun x hx => htables x (List.mem_cons_of_mem t hx)
    rw [List.flatMap_cons, runStatements_append, runStatements_cons hdrop, runStatements_cons hcreate]
    refine (ih hnames.2 htables').trans ?_
    -- the trigger that was just made is kept, and the others were left out at once
    have hkeep : [t].filter (·.name ∉ ts.map (·.name)) = [t] := by
      rw [List.filter_cons_of_pos (by simpa using hnames.1)]
      rfl
    have hfilter : (db.triggers.filter (·.name ≠ t.name)).filter (·.name ∉ ts.map (·.name)) =
        db.triggers.filter (·.name ∉ (t :: ts).map (·.name)) := by
      rw [List.filter_filter]
      apply List.filter_congr
      intro x _
      rw [Bool.eq_iff_iff]
      simp only [Bool.and_eq_true, decide_eq_true_eq, List.map_cons, List.mem_cons, not_or, and_comm]
    show some (⟨db.tables, _⟩ : Db V) = _
    rw [List.filter_append, hkeep, hfilter, List.append_assoc]
    rfl

end Plan

end TypedMirror
