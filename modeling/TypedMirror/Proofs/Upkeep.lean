import TypedMirror.Proofs.Ownership
import TypedMirror.Proofs.Rows

/-!
# What a trigger does to a mirror

A mirror holds the rows of its source that it owns, with the mirrored columns only.  When a row of the
source changes, the trigger exchanges in the mirror what the change has exchanged in the source.

* `Holds.exchange` — an exchange in the source and the same in the mirror;
* `evolve_mirrorActions` — the actions of the trigger are such an exchange.
-/

namespace TypedMirror

open Sql

/-- The mirror's table has the rows of the source that the mirror owns, and no others. -/
structure Mirror.Holds {V : Type} (like : V → Text → Bool) (ms : List Mirror) (m : Mirror)
    (source mirror : Table V) : Prop where
  primary : mirror.primary = m.idColumn
  keyed : mirror.Keyed
  mem : ∀ r, r ∈ mirror.rows ↔
    ∃ x ∈ source.rows, m.owns like ms (x m.keyColumn) ∧ Row.only (Plan.columnsOf m) x = r

namespace Mirror

variable {V : Type} {like : V → Text → Bool} {ms : List Mirror} {m : Mirror}

/-! ## The mirrored columns -/

@[simp] theorem only_idColumn (x : Row V) :
    Row.only (Plan.columnsOf m) x m.idColumn = x m.idColumn := by
  simp [Row.only, Plan.columnsOf, Columns.names]

/-- The columns that are assigned are all the mirrored ones but for the id. -/
theorem assign_only {x new : Row V} (hid : x m.idColumn = new m.idColumn) :
    Row.assign [m.objectColumn, m.keyColumn, m.valueColumn] (Row.only (Plan.columnsOf m) x)
      (Row.only (Plan.columnsOf m) new) = Row.only (Plan.columnsOf m) new := by
  funext c
  unfold Row.assign
  by_cases hc : c ∈ [m.objectColumn, m.keyColumn, m.valueColumn]
  · rw [if_pos hc]
  · rw [if_neg hc]
    by_cases hci : c = m.idColumn
    · rw [hci, only_idColumn, only_idColumn, hid]
    · have hnot : c ∉ (Plan.columnsOf m).names := by
        intro h
        rcases List.mem_cons.1 h with h | h
        · exact hci h
        · exact hc h
      rw [Row.only, Row.only, if_neg hnot, if_neg hnot]

/-! ## What a mirror holds -/

/-- Of some rows of the source, those that a mirror owns, as it keeps them. -/
def ownedRows (like : V → Text → Bool) (ms : List Mirror) (m : Mirror) (rows : List (Row V)) :
    List (Row V) :=
  (rows.filter fun x => m.owns like ms (x m.keyColumn)).map (Row.only (Plan.columnsOf m))

theorem mem_ownedRows {rows : List (Row V)} {r : Row V} : r ∈ ownedRows like ms m rows ↔
    ∃ x ∈ rows, m.owns like ms (x m.keyColumn) ∧ Row.only (Plan.columnsOf m) x = r := by
  simp [ownedRows, and_assoc]

theorem ownedRows_singleton (x : Row V) : ownedRows like ms m [x] =
    if m.owns like ms (x m.keyColumn) then [Row.only (Plan.columnsOf m) x] else [] := by
  by_cases how : m.owns like ms (x m.keyColumn) <;> simp [ownedRows, how]

theorem keyed_ownedRows {t : Table V} (ht : t.Keyed) (hp : t.primary = m.idColumn) :
    Table.Keyed ⟨m.idColumn, ownedRows like ms m t.rows⟩ := by
  refine ⟨?_, ?_⟩
  · intro r hr
    obtain ⟨x, hx, -, rfl⟩ := mem_ownedRows.1 hr
    show (Row.only (Plan.columnsOf m) x m.idColumn).isSome
    rw [only_idColumn, ← hp]
    exact ht.hasId x hx
  · have hids : (ownedRows like ms m t.rows).map (· m.idColumn) =
        (t.rows.filter fun x => m.owns like ms (x m.keyColumn)).map (· m.idColumn) := by
      rw [ownedRows, List.map_map]
      apply List.map_congr_left
      intro x _
      exact only_idColumn x
    show ((ownedRows like ms m t.rows).map (· m.idColumn)).Nodup
    rw [hids, ← hp]
    exact ht.nodup.sublist (List.filter_sublist.map _)

namespace Holds

variable {t t' u u' : Table V}

theorem fresh {k : Option V} (h : m.Holds like ms t u) (ht : t.primary = m.idColumn)
    (hfree : ∀ x ∈ t.rows, m.owns like ms (x m.keyColumn) → x t.primary ≠ k) :
    ∀ r ∈ u.rows, r u.primary ≠ k := by
  intro r hr
  obtain ⟨x, hx, how, rfl⟩ := (h.mem r).1 hr
  rw [h.primary, only_idColumn, ← ht]
  exact hfree x hx how

/-- As a list, the mirror is made of the rows owned, in some order. -/
theorem perm (h : m.Holds like ms t u) (ht : t.Keyed) (hp : t.primary = m.idColumn) :
    u.rows.Perm (ownedRows like ms m t.rows) := by
  rw [List.perm_ext_iff_of_nodup h.keyed.nodup_rows (keyed_ownedRows ht hp).nodup_rows]
  intro r
  rw [h.mem r, mem_ownedRows]

/-- A table that is filled with the rows owned. -/
theorem filled (ht : t.Keyed) (hp : t.primary = m.idColumn) :
    m.Holds like ms t ⟨m.idColumn, ownedRows like ms m t.rows⟩ :=
  ⟨rfl, keyed_ownedRows ht hp, fun _ => mem_ownedRows⟩

/-- What the source exchanges under an id, the mirror exchanges too. -/
theorem exchange {k : Option V} {added : List (Row V)} (h : m.Holds like ms t u)
    (hp : t.primary = m.idColumn) (ht : t.Exchange t' k added)
    (hu : u.Exchange u' k (ownedRows like ms m added)) : m.Holds like ms t' u' := by
  refine ⟨hu.primary.trans h.primary, hu.keyed, ?_⟩
  intro r
  rw [hu.mem r, h.mem r]
  constructor
  · rintro (⟨⟨x, hx, how, rfl⟩, hk⟩ | hr)
    · rw [h.primary, only_idColumn, ← hp] at hk
      exact ⟨x, (ht.mem x).2 (.inl ⟨hx, hk⟩), how, rfl⟩
    · obtain ⟨x, hx, how, rfl⟩ := mem_ownedRows.1 hr
      exact ⟨x, (ht.mem x).2 (.inr hx), how, rfl⟩
  · rintro ⟨x, hx, how, rfl⟩
    rcases (ht.mem x).1 hx with ⟨hx, hk⟩ | hx
    · refine .inl ⟨⟨x, hx, how, rfl⟩, ?_⟩
      rw [h.primary, only_idColumn, ← hp]
      exact hk
    · exact .inr (mem_ownedRows.2 ⟨x, hx, how, rfl⟩)

end Holds

end Mirror

/-! ## The actions of a trigger -/

namespace Plan

variable {V : Type} [DecidableEq V] {like : V → Text → Bool} {ms : List Mirror} {m : Mirror}

/-- The row of the mirror that a change concerns is the one with the id of the old row. -/
theorem holds_isOldRow {s : Scope V} :
    (isOldRow m).holds like s = true ↔
      ∃ i, s.row m.idColumn = some i ∧ s.old m.idColumn = some i := by
  rw [Condition.holds, decide_eq_true_eq]
  show Condition.sameCell (s.row m.idColumn) (s.old m.idColumn) = some true ↔ _
  cases s.row m.idColumn with
  | none => simp [Condition.sameCell]
  | some i =>
    cases s.old m.idColumn with
    | none => simp [Condition.sameCell]
    | some j => simp [Condition.sameCell, eq_comm]

/-- A row is evicted if the mirror does not own the new key. -/
theorem holds_evict {s : Scope V} (hm : m.isUnfiltered = false)
    (hkey : ∀ x ∈ ms, x.keyColumn = m.keyColumn) :
    (Condition.and (isOldRow m) (.not (.orFalse
      ((claimCondition m (claimsBefore ms m) (some .new)).getD .always)))).holds like s = true ↔
      (isOldRow m).holds like s = true ∧ m.owns like ms (s.new m.keyColumn) = false := by
  obtain ⟨c, hc⟩ := claimCondition_eq_some hm (claimsBefore ms m) (some .new)
  rw [hc, Option.getD_some, Condition.holds, Condition.holds, decide_eq_true_eq, decide_eq_true_eq]
  show Truth.and _ (Truth.not ((Condition.orFalse c).truth like s)) = some true ↔ _
  rw [Condition.truth_orFalse, holds_claimCondition hkey hc, Truth.not_some]
  show Truth.and _ (some (!m.owns like ms (s.new m.keyColumn))) = some true ↔ _
  cases (isOldRow m).truth like s with
  | none => cases m.owns like ms (s.new m.keyColumn) <;> simp [Truth.and]
  | some b => simp

omit [DecidableEq V]

theorem mirrorActions_insert (new : Row V) :
    mirrorActions like ms m .insert (Change.insert new).scope =
      if m.owns like ms (new m.keyColumn) then [writeAction m .insert] else [] := by
  have hno : ¬ (Event.insert = .update ∧ m.isUnfiltered = false) := by simp
  rw [mirrorActions, if_neg hno, List.append_nil]
  rfl

theorem mirrorActions_delete (old : Row V) :
    mirrorActions like ms m .delete (Change.delete old).scope =
      if m.owns like ms (old m.keyColumn) then [writeAction m .delete] else [] := by
  have hno : ¬ (Event.delete = .update ∧ m.isUnfiltered = false) := by simp
  rw [mirrorActions, if_neg hno, List.append_nil]
  rfl

theorem mirrorActions_update (old new : Row V) :
    mirrorActions like ms m .update (Change.update old new).scope =
      (if m.owns like ms (new m.keyColumn) then [writeAction m .update] else []) ++
        if m.isUnfiltered then [] else [evictAction m (claimsBefore ms m)] := by
  unfold mirrorActions
  cases h : m.isUnfiltered with
  | true => rfl
  | false => rfl

variable [DecidableEq V] {t u : Table V} {old new : Row V} {i : V}

theorem evolve_insert (h : m.Holds like ms t u) (hp : t.primary = m.idColumn)
    (hi : new t.primary = some i) (hfree : ∀ r ∈ t.rows, r t.primary ≠ some i) :
    ∃ u', evolve like (Change.insert new).scope
        (mirrorActions like ms m .insert (Change.insert new).scope) u = some u' ∧
      u.Exchange u' (some i) (m.ownedRows like ms [new]) := by
  have hfree' := h.fresh hp fun x hx _ => hfree x hx
  rw [mirrorActions_insert, Mirror.ownedRows_singleton]
  by_cases how : m.owns like ms (new m.keyColumn) = true
  · have hi' : Row.only (columnsOf m) new u.primary = some i := by
      rw [h.primary, Mirror.only_idColumn, ← hp, hi]
    rw [if_pos how, if_pos how, evolve_singleton]
    refine ⟨_, ?_, h.keyed.exchange_append hi' hfree'⟩
    show (Effect.insert (Row.only (columnsOf m) new) u).map (·.1) = _
    rw [Effect.insert_of_fresh hi' hfree']
    rfl
  · rw [if_neg how, if_neg how]
    exact ⟨u, rfl, h.keyed.exchange_self hfree'⟩

/-- What is under the id of a row of the source goes. -/
theorem delete_old {s : Scope V} (h : m.Holds like ms t u) (hp : t.primary = m.idColumn)
    (hi : s.old t.primary = some i) {gone : Row V → Bool}
    (hgone : ∀ r, gone r = true ↔ (isOldRow m).holds like { s with row := r } = true) :
    ∃ u', (Effect.delete gone u).map (·.1) = some u' ∧ u.Exchange u' (some i) [] := by
  refine ⟨_, rfl, Effect.delete_of_keyed h.keyed ?_⟩
  intro r _
  rw [hgone, holds_isOldRow, h.primary, ← hp, hi]
  simp

theorem evolve_delete (h : m.Holds like ms t u) (ht : t.Keyed) (hp : t.primary = m.idColumn)
    (hold : old ∈ t.rows) (hi : old t.primary = some i) :
    ∃ u', evolve like (Change.delete old).scope
        (mirrorActions like ms m .delete (Change.delete old).scope) u = some u' ∧
      u.Exchange u' (some i) [] := by
  rw [mirrorActions_delete]
  by_cases how : m.owns like ms (old m.keyColumn) = true
  · rw [if_pos how, evolve_singleton]
    exact delete_old (s := (Change.delete old).scope) h hp hi fun r => Iff.rfl
  · rw [if_neg how]
    refine ⟨u, rfl, h.keyed.exchange_self (h.fresh hp ?_)⟩
    intro x hx hxo hxi
    obtain rfl := ht.eq_of_id hx hold (hxi.trans hi.symm)
    exact how hxo

/-- After a write no row is evicted, for the mirror owns the new key. -/
theorem evict_of_owns {s : Scope V} (hm : m.isUnfiltered = false)
    (hkey : ∀ x ∈ ms, x.keyColumn = m.keyColumn)
    (how : m.owns like ms (s.new m.keyColumn) = true) (u : Table V) :
    ((evictAction m (claimsBefore ms m)).effect like s u).map (·.1) = some u := by
  show some (⟨u.primary, u.rows.filter _⟩ : Table V) = some u
  have hall : u.rows.filter (fun r => !(Condition.and (isOldRow m) (.not (.orFalse
      ((claimCondition m (claimsBefore ms m) (some .new)).getD .always)))).holds like
        { s with row := r }) = u.rows := by
    rw [List.filter_eq_self]
    intro r _
    rw [Bool.not_eq_true', ← Bool.not_eq_true, holds_evict hm hkey]
    rintro ⟨-, hno⟩
    exact absurd (how.symm.trans hno) (by decide)
  exact congrArg (fun rows => some (⟨u.primary, rows⟩ : Table V)) hall

/-- The row under the old id is evicted. -/
theorem evolve_not_owned (h : m.Holds like ms t u) (hp : t.primary = m.idColumn)
    (hkey : ∀ x ∈ ms, x.keyColumn = m.keyColumn) (hi : old t.primary = some i)
    (how : ¬ m.owns like ms (new m.keyColumn) = true) :
    ∃ u', evolve like (Change.update old new).scope
        (mirrorActions like ms m .update (Change.update old new).scope) u = some u' ∧
      u.Exchange u' (some i) [] := by
  have hm : m.isUnfiltered = false := by
    rw [← Bool.not_eq_true]
    intro hm
    exact how (Mirror.owns_of_isUnfiltered hm _)
  rw [mirrorActions_update, if_neg how, if_neg (by simp [hm]), List.nil_append, evolve_singleton]
  apply delete_old (s := (Change.update old new).scope) h hp hi
  intro r
  rw [holds_evict hm hkey]
  exact and_iff_left (by simpa [Change.scope] using how)

theorem evolve_update (h : m.Holds like ms t u) (hp : t.primary = m.idColumn)
    (hkey : ∀ x ∈ ms, x.keyColumn = m.keyColumn)
    (hi : old t.primary = some i) (hi' : new t.primary = some i) :
    ∃ u', evolve like (Change.update old new).scope
        (mirrorActions like ms m .update (Change.update old new).scope) u = some u' ∧
      u.Exchange u' (some i) (m.ownedRows like ms [new]) := by
  rw [Mirror.ownedRows_singleton]
  by_cases how : m.owns like ms (new m.keyColumn) = true
  · rw [mirrorActions_update, if_pos how, if_pos how, List.singleton_append, evolve_cons]
    have hnew : Row.only (columnsOf m) new u.primary = some i := by
      rw [h.primary, Mirror.only_idColumn, ← hp, hi']
    have hover : ∀ r ∈ u.rows, r u.primary = some i →
        Row.assign [m.objectColumn, m.keyColumn, m.valueColumn] r (Row.only (columnsOf m) new) =
          Row.only (columnsOf m) new := by
      intro r hr hri
      obtain ⟨x, -, -, rfl⟩ := (h.mem r).1 hr
      rw [h.primary, Mirror.only_idColumn] at hri
      exact Mirror.assign_only (by rw [hri, ← hp, hi'])
    obtain ⟨u', hu', hex⟩ := Effect.upsert_of_keyed _ h.keyed hnew hover
    refine ⟨u', ?_, hex⟩
    have hwrite : ((writeAction m .update).effect like (Change.update old new).scope u).map (·.1) =
        some u' := hu'
    rw [hwrite, Option.bind_some]
    cases hm : m.isUnfiltered with
    | true => rfl
    | false =>
      rw [if_neg (by decide), evolve_singleton]
      exact evict_of_owns hm hkey how u'
  · rw [if_neg how]
    exact evolve_not_owned h hp hkey hi how

/-- As the source goes through a change, so does the mirror. -/
theorem evolve_mirrorActions {t' : Table V} {c : Change V} (h : m.Holds like ms t u) (ht : t.Keyed)
    (hp : t.primary = m.idColumn) (hkey : ∀ x ∈ ms, x.keyColumn = m.keyColumn) (hc : c.Within t)
    (hex : t.Exchange t' (c.id t.primary) c.added) :
    ∃ u', evolve like c.scope (mirrorActions like ms m c.event c.scope) u = some u' ∧
      m.Holds like ms t' u' := by
  obtain ⟨i, hi⟩ := c.isSome_id ht hc
  rw [hi] at hex
  suffices ∃ u', evolve like c.scope (mirrorActions like ms m c.event c.scope) u = some u' ∧
      u.Exchange u' (some i) (m.ownedRows like ms c.added) by
    obtain ⟨u', hu', hex'⟩ := this
    exact ⟨u', hu', h.exchange hp hex hex'⟩
  cases c with
  | insert new =>
    have hi : new t.primary = some i := hi
    exact evolve_insert h hp hi (hi ▸ hc.2)
  | update old new => exact evolve_update h hp hkey hi (hc.2.trans hi)
  | delete old => exact evolve_delete h ht hp hc hi

end Plan

end TypedMirror
