import TypedMirror.Proofs.Synchronisation

/-!
# A row that changes its id

The trigger of an update writes the row under its new id, and evicts what stands under the old id
from the mirrors that do not own the new key.  So a mirror that owns the old key and the new one, as
a mirror of all keys does, has the row under both ids afterwards.

* `evolve_reidentified` — what the trigger does to one mirror;
* `rows_after_id_change` — the mirrors of a source after the write;
* `row_under_both_ids` — a mirror with a row that its source no longer has.
-/

namespace TypedMirror

open Sql

variable {V : Type} [DecidableEq V] {like : V → Text → Bool}

/-! ## In the source -/

/-- The rows with one row in place of that with an id. -/
def Sql.Table.replaced (t : Table V) (i : V) (new : Row V) : List (Row V) :=
  t.rows.map fun r => if r t.primary = some i then new else r

/-- A row of a keyed table, and the other rows, before it and behind it. -/
theorem Sql.Table.Keyed.exists_split {t : Table V} {old : Row V} {i : V} (h : t.Keyed)
    (hold : old ∈ t.rows) (hi : old t.primary = some i) : ∃ a b, t.rows = a ++ old :: b ∧
      (∀ r ∈ a ++ b, r t.primary ≠ some i) ∧ ∀ new, t.replaced i new = a ++ new :: b := by
  obtain ⟨a, b, hsplit⟩ := List.append_of_mem hold
  have hother : ∀ r ∈ a ++ b, r t.primary ≠ some i := by
    intro r hr hri
    have hnodup := h.nodup_rows
    rw [hsplit, List.nodup_middle] at hnodup
    have hmem : r ∈ t.rows := by
      rw [hsplit, List.mem_append, List.mem_cons]
      exact (List.mem_append.1 hr).imp_right .inr
    obtain rfl := h.eq_of_id hmem hold (hri.trans hi.symm)
    exact (List.nodup_cons.1 hnodup).1 hr
  refine ⟨a, b, hsplit, hother, fun new => ?_⟩
  have hkeep : ∀ c : List (Row V), (∀ r ∈ c, r t.primary ≠ some i) →
      (c.map fun r => if r t.primary = some i then new else r) = c := fun c hc =>
    (List.map_congr_left fun r hr => if_neg (hc r hr)).trans (List.map_id' c)
  rw [Table.replaced, hsplit, List.map_append, List.map_cons, if_pos hi,
    hkeep a fun r hr => hother r (List.mem_append_left b hr),
    hkeep b fun r hr => hother r (List.mem_append_right a hr)]

/-! ## In a mirror -/

namespace Mirror

variable {ms : List Mirror} {m : Mirror}

omit [DecidableEq V] in
theorem ownedRows_append (a b : List (Row V)) :
    m.ownedRows like ms (a ++ b) = m.ownedRows like ms a ++ m.ownedRows like ms b := by
  simp [ownedRows]

omit [DecidableEq V] in
theorem id_ne_of_mem_ownedRows {rows : List (Row V)} {k : Option V}
    (h : ∀ x ∈ rows, x m.idColumn ≠ k) : ∀ r ∈ m.ownedRows like ms rows, r m.idColumn ≠ k := by
  intro r hr
  obtain ⟨x, hx, -, rfl⟩ := mem_ownedRows.1 hr
  rw [only_idColumn]
  exact h x hx

/-- The row that a mirror keeps under the old id, if it owns the old key and the new one. -/
def stale (like : V → Text → Bool) (ms : List Mirror) (m : Mirror) (old new : Row V) :
    List (Row V) :=
  if m.owns like ms (new m.keyColumn) then m.ownedRows like ms [old] else []

/-- What a mirror has after the row `old`, with the id `i`, has become `new`. -/
def reidentified (like : V → Text → Bool) (ms : List Mirror) (m : Mirror) (t : Table V) (i : V)
    (old new : Row V) : List (Row V) :=
  m.ownedRows like ms (t.replaced i new) ++ m.stale like ms old new

omit [DecidableEq V] in
theorem mem_stale {old new r : Row V} : r ∈ m.stale like ms old new ↔
    (m.owns like ms (old m.keyColumn) = true ∧ m.owns like ms (new m.keyColumn) = true) ∧
      r = Row.only (Plan.columnsOf m) old := by
  unfold stale
  rw [ownedRows_singleton]
  split <;> rename_i hnew <;> by_cases hold : m.owns like ms (old m.keyColumn) = true <;>
    simp [hnew, hold]

end Mirror

namespace Plan

variable {ms : List Mirror} {m : Mirror} {t u : Table V} {old new : Row V} {i j : V}

/-- The row is written under its new id, and nothing is evicted. -/
theorem evolve_owned (h : m.Holds like ms t u) (hp : t.primary = m.idColumn)
    (hkey : ∀ x ∈ ms, x.keyColumn = m.keyColumn) (hj : new t.primary = some j)
    (hfree : ∀ r ∈ t.rows, r t.primary ≠ some j)
    (how : m.owns like ms (new m.keyColumn) = true) :
    evolve like (Change.update old new).scope
        (mirrorActions like ms m .update (Change.update old new).scope) u =
      some ⟨u.primary, u.rows ++ [Row.only (columnsOf m) new]⟩ := by
  have hid : Row.only (columnsOf m) new u.primary = some j := by
    rw [h.primary, Mirror.only_idColumn, ← hp, hj]
  have hwrite : (writeAction m .update).effect like (Change.update old new).scope u =
      some (⟨u.primary, u.rows ++ [Row.only (columnsOf m) new]⟩, _) :=
    Effect.upsert_of_fresh _ hid (h.fresh hp fun x hx _ => hfree x hx)
  rw [mirrorActions_update, if_pos how, List.singleton_append, evolve_cons, hwrite]
  cases hm : m.isUnfiltered with
  | true => rfl
  | false =>
    show evolve like _ [evictAction m (claimsBefore ms m)] _ = _
    rw [evolve_singleton]
    exact evict_of_owns hm hkey how _

/-- The trigger leaves in a mirror what it owns of the new rows, and the row that is stale. -/
theorem evolve_reidentified (h : m.Holds like ms t u) (ht : t.Keyed) (hp : t.primary = m.idColumn)
    (hkey : ∀ x ∈ ms, x.keyColumn = m.keyColumn) (hold : old ∈ t.rows)
    (hi : old t.primary = some i) (hj : new t.primary = some j)
    (hfree : ∀ r ∈ t.rows, r t.primary ≠ some j) :
    ∃ u', evolve like (Change.update old new).scope
        (mirrorActions like ms m .update (Change.update old new).scope) u = some u' ∧
      u'.rows.Perm (m.reidentified like ms t i old new) := by
  obtain ⟨a, b, hsplit, hother, hreplaced⟩ := ht.exists_split hold hi
  have hrows : u.rows.Perm (m.ownedRows like ms a ++ (m.ownedRows like ms [old] ++
      m.ownedRows like ms b)) := by
    have hperm := h.perm ht hp
    rwa [hsplit, ← List.singleton_append, Mirror.ownedRows_append, Mirror.ownedRows_append] at hperm
  have hnew : m.ownedRows like ms (t.replaced i new) = m.ownedRows like ms a ++
      (m.ownedRows like ms [new] ++ m.ownedRows like ms b) := by
    rw [hreplaced, ← List.singleton_append, Mirror.ownedRows_append, Mirror.ownedRows_append]
  rw [Mirror.reidentified, hnew, Mirror.stale]
  by_cases how : m.owns like ms (new m.keyColumn) = true
  · refine ⟨_, evolve_owned h hp hkey hj hfree how, ?_⟩
    rw [if_pos how, Mirror.ownedRows_singleton new, if_pos how]
    refine (hrows.append_right _).trans ?_
    classical
    rw [List.perm_iff_count]
    intro r
    simp only [List.count_append]
    omega
  · obtain ⟨u', hu', hex⟩ := evolve_not_owned h hp hkey hi how
    refine ⟨u', hu', ?_⟩
    rw [if_neg how, Mirror.ownedRows_singleton new, if_neg how, List.nil_append, List.append_nil]
    have hnodup : (m.ownedRows like ms a ++ m.ownedRows like ms b).Nodup :=
      (hrows.nodup h.keyed.nodup_rows).sublist
        (List.Sublist.append_left (List.sublist_append_right _ _) _)
    rw [List.perm_ext_iff_of_nodup hex.keyed.nodup_rows hnodup]
    intro r
    have hothers : r ∈ m.ownedRows like ms a ++ m.ownedRows like ms b → r u.primary ≠ some i := by
      rw [← Mirror.ownedRows_append, h.primary]
      exact Mirror.id_ne_of_mem_ownedRows (fun x hx => hp ▸ hother x hx) r
    have hold : r ∈ m.ownedRows like ms [old] → r u.primary = some i := by
      intro hr
      obtain ⟨x, hx, -, rfl⟩ := Mirror.mem_ownedRows.1 hr
      rw [h.primary, Mirror.only_idColumn, List.mem_singleton.1 hx, ← hp, hi]
    rw [hex.mem, hrows.mem_iff]
    constructor
    · rintro (⟨hr, hri⟩ | hr)
      · rcases List.mem_append.1 hr with hr | hr
        · exact List.mem_append_left _ hr
        rcases List.mem_append.1 hr with hr | hr
        · exact absurd (hold hr) hri
        · exact List.mem_append_right _ hr
      · cases hr
    · intro hr
      refine .inl ⟨?_, hothers hr⟩
      rcases List.mem_append.1 hr with hr | hr
      · exact List.mem_append_left _ hr
      · exact List.mem_append_right _ (List.mem_append_right _ hr)

end Plan

namespace Mirror

variable {ms : List Mirror} {m : Mirror} {t : Table V} {old new : Row V} {i j : V}

/-- The new row is in the mirrors that own it. -/
theorem new_mem_reidentified (ht : t.Keyed) (hp : t.primary = m.idColumn) (hold : old ∈ t.rows)
    (hi : old t.primary = some i) (hj : new t.primary = some j)
    (hfree : ∀ r ∈ t.rows, r t.primary ≠ some j) :
    Row.only (Plan.columnsOf m) new ∈ m.reidentified like ms t i old new ↔
      m.owns like ms (new m.keyColumn) = true := by
  obtain ⟨a, b, hsplit, -, hreplaced⟩ := ht.exists_split hold hi
  rw [reidentified, hreplaced, List.mem_append, mem_ownedRows, mem_stale]
  constructor
  · rintro (⟨x, hx, how, hsame⟩ | ⟨⟨-, how⟩, -⟩)
    · have hid : x m.idColumn = new m.idColumn := by
        rw [← only_idColumn x, hsame, only_idColumn]
      have hnot : ∀ y ∈ t.rows, y ≠ x := by
        rintro y hy rfl
        rw [← hp, hj] at hid
        exact hfree y hy hid
      rw [List.mem_append, List.mem_cons] at hx
      rcases hx with hx | rfl | hx
      · exact absurd rfl (hnot x (by simp [hsplit, hx]))
      · exact how
      · exact absurd rfl (hnot x (by simp [hsplit, hx]))
    · exact how
  · exact fun how => .inl ⟨new, by simp, how, rfl⟩

/-- A row under the old id is in the mirrors that own the old key and the new one. -/
theorem exists_old_id_iff (ht : t.Keyed) (hp : t.primary = m.idColumn) (hold : old ∈ t.rows)
    (hi : old t.primary = some i) (hj : new t.primary = some j)
    (hfree : ∀ r ∈ t.rows, r t.primary ≠ some j) :
    (∃ x ∈ m.reidentified like ms t i old new, x m.idColumn = some i) ↔
      m.owns like ms (old m.keyColumn) = true ∧ m.owns like ms (new m.keyColumn) = true := by
  obtain ⟨a, b, -, hother, hreplaced⟩ := ht.exists_split hold hi
  have hnot : ∀ x ∈ t.replaced i new, x m.idColumn ≠ some i := by
    rw [hreplaced]
    intro x hx
    rw [List.mem_append, List.mem_cons] at hx
    rw [← hp]
    rcases hx with hx | rfl | hx
    · exact hother x (List.mem_append_left b hx)
    · rw [hj, ← hi]
      exact (hfree old hold).symm
    · exact hother x (List.mem_append_right a hx)
  constructor
  · rintro ⟨x, hx, hxi⟩
    rcases List.mem_append.1 hx with hx | hx
    · exact absurd hxi (id_ne_of_mem_ownedRows hnot x hx)
    · exact (mem_stale.1 hx).1
  · intro how
    refine ⟨_, List.mem_append_right _ (mem_stale.2 ⟨how, rfl⟩), ?_⟩
    rw [only_idColumn, ← hp, hi]

end Mirror

/-! ## After the write -/

/-- A row of a source comes under an id that is free.  Of the rows of the source, each mirror then
has those that it owns, and so the new row just if it owns that.  What it has besides is the row under
the old id, if it owns both the old key and the new one, and otherwise nothing. -/
theorem rows_after_id_change {r : Registry} {db : Db V} (hr : r.Regular) (h : InStep like r db)
    {source : Text} (hs : source ∈ r.sourceTables) {t : Table V} (ht : db.tables source = some t)
    {old new : Row V} {i j : V} (hold : old ∈ t.rows) (hi : old t.primary = some i)
    (hj : new t.primary = some j) (hfree : ∀ x ∈ t.rows, x t.primary ≠ some j) (depth : Nat) :
    ∃ db', runWrites (fire like (depth + 1)) [.update source i new] db = some db' ∧
      db'.tables source = some ⟨t.primary, t.replaced i new⟩ ∧
      ∀ m ∈ r.mirrors, m.source = source → ∃ u, db'.tables m.id = some u ∧
        u.rows.Perm (m.ownedRows like (r.mirrorsFor source) (t.replaced i new) ++
          m.stale like (r.mirrorsFor source) old new) ∧
        (Row.only (Plan.columnsOf m) new ∈ u.rows ↔
          m.owns like (r.mirrorsFor source) (new m.keyColumn) = true) ∧
        ((∃ x ∈ u.rows, x m.idColumn = some i) ↔
          m.owns like (r.mirrorsFor source) (old m.keyColumn) = true ∧
            m.owns like (r.mirrorsFor source) (new m.keyColumn) = true) := by
  obtain ⟨m₀, hm₀, rfl⟩ := Registry.mem_sourceTables.1 hs
  have hkeyed : t.Keyed := by
    obtain ⟨t₀, -, ht₀, hk, -⟩ := h.held m₀ hm₀
    exact Option.some.inj (ht₀.symm.trans ht) ▸ hk
  have hmirror : ∀ m ∈ r.mirrors, m.source = m₀.source → t.primary = m.idColumn ∧
      ∃ u u', db.tables m.id = some u ∧
        evolve like (Change.update old new).scope (Plan.mirrorActions like
          (r.mirrorsFor m₀.source) m .update (Change.update old new).scope) u = some u' ∧
        u'.rows.Perm (m.reidentified like (r.mirrorsFor m₀.source) t i old new) := by
    intro m hm hms
    obtain ⟨t₁, u, ht₁, -, hp, hu, hheld⟩ := h.held m hm
    obtain rfl : t = t₁ := Option.some.inj (ht.symm.trans (hms ▸ ht₁))
    rw [hms] at hheld
    obtain ⟨u', hu', hperm⟩ := Plan.evolve_reidentified hheld hkeyed hp
      (hms ▸ hr.keyColumn_eq hm) hold hi hj hfree
    exact ⟨hp, u, u', hu, hu', hperm⟩
  obtain ⟨db', hrun, -, hown, hother⟩ := InStep.exists_of_change hr hs (fun m hm _ => h.quiet m hm)
    (h.triggers m₀.source hs _) ht (Effect.replace_fresh hkeyed hj hfree hold hi)
    fun m hm hms => by
      obtain ⟨-, u, u', hu, hu', -⟩ := hmirror m hm hms
      exact ⟨u, u', hu, hu'⟩
  refine ⟨db', ?_, ?_, ?_⟩
  · exact (bind_pure _).trans hrun
  · rw [hother m₀.source fun m hm _ => (hr.apart m₀ hm₀ m hm).symm]
    simp [Table.replaced]
  · intro m hm hms
    obtain ⟨hp, u, u', hu, hu', hperm⟩ := hmirror m hm hms
    refine ⟨u', ?_, hperm, ?_, ?_⟩
    · rw [hown m hm hms, hu]
      exact hu'
    · rw [hperm.mem_iff]
      exact Mirror.new_mem_reidentified hkeyed hp hold hi hj hfree
    · have hmem : (∃ x ∈ u'.rows, x m.idColumn = some i) ↔
          ∃ x ∈ m.reidentified like (r.mirrorsFor m₀.source) t i old new, x m.idColumn = some i :=
        exists_congr fun x => and_congr_left fun _ => hperm.mem_iff
      rw [hmem]
      exact Mirror.exists_old_id_iff hkeyed hp hold hi hj hfree

/-! ## An example -/

namespace Sample

/-- The example after its plan. -/
theorem exists_inStep (like : Text → Text → Bool) : ∃ db,
    runStatements like 0 (Plan.ofRegistry setup.finalize).statements database = some db ∧
      db.tables "wp_postmeta".toList = some posts ∧ InStep like setup.finalize db := by
  have hr : setup.finalize.Regular := registered.regular (by decide) (by decide)
  obtain ⟨db, hplan, hothers, hin⟩ := InStep.of_plan hr sourced_database named_database
  exact ⟨db, hplan, hothers _ (by decide), hin⟩

end Sample

open Sample in
/-- The row with the key that the mirror owns comes under another id, and stays under its own. -/
theorem row_under_both_ids :
    let written := (runStatements (fun v p => v == p) 0 (Plan.ofRegistry setup.finalize).statements
      database).bind (runWrites (fire (fun v p => v == p) 1)
        [.update "wp_postmeta".toList ['1'] (row ['3'] "colour".toList)])
    let ids := fun table : Text => (written.bind (·.tables table)).map
      fun u : Table Text => u.rows.map (· "meta_id".toList)
    ids "wp_postmeta".toList = some [some ['3'], some ['2']] ∧
      ids colours.id = some [some ['1'], some ['3']] := by
  decide +kernel

open Sample in
/-- A row with another key comes under another id and to the key that the mirror owns. -/
theorem rows_after_id_change_sample : ∃ db₁ db₂ u,
    runStatements (fun v p => v == p) 0 (Plan.ofRegistry setup.finalize).statements database =
      some db₁ ∧
    runWrites (fire (fun v p => v == p) 1)
      [.update "wp_postmeta".toList ['2'] (row ['3'] "colour".toList)] db₁ = some db₂ ∧
    db₂.tables colours.id = some u ∧
    Row.only (Plan.columnsOf colours) (row ['3'] "colour".toList) ∈ u.rows ∧
    ¬ ∃ x ∈ u.rows, x "meta_id".toList = some ['2'] := by
  have hr : setup.finalize.Regular := registered.regular (by decide) (by decide)
  obtain ⟨db₁, hplan, hposts, hin⟩ := exists_inStep fun v p => v == p
  have hs : "wp_postmeta".toList ∈ setup.finalize.sourceTables := by decide
  have hold : row ['2'] "size".toList ∈ posts.rows := List.mem_cons_of_mem _ List.mem_cons_self
  have hi : row ['2'] "size".toList posts.primary = some ['2'] := rfl
  have hj : row ['3'] "colour".toList posts.primary = some ['3'] := rfl
  obtain ⟨db₂, hrun, -, hmirrors⟩ :=
    rows_after_id_change hr hin hs hposts hold hi hj (by decide) 0
  obtain ⟨u, hu, -, hnew, hstale⟩ := hmirrors colours List.mem_cons_self rfl
  exact ⟨db₁, db₂, u, hplan, hrun, hu, hnew.2 (by decide), fun h => absurd (hstale.1 h) (by decide)⟩

end TypedMirror
