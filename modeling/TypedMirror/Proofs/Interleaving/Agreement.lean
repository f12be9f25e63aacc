import TypedMirror.Proofs.Upkeep

/-!
# Tables that differ in some rows

A mirror that has missed a write to a row may be wrong about that row.  About the others it is as
right as it was, and it stays so, since an action of a trigger treats two tables alike wherever they
are alike.

* `Table.AgreeBut` — two tables have the same rows, but for those with some ids;
* `AgreeBut.evolve` — the same actions leave them so;
* `Mirror.HoldsBut` — a mirror holds what it owns, but for the rows with some ids.
-/

namespace TypedMirror

namespace Sql

variable {V : Type} {lost lost' : Option V → Prop} {u u' v v' : Table V}

/-- Two tables have the same rows, but for those with some ids. -/
structure Table.AgreeBut (lost : Option V → Prop) (u v : Table V) : Prop where
  primary : u.primary = v.primary
  mem : ∀ r, ¬ lost (r u.primary) → (r ∈ u.rows ↔ r ∈ v.rows)

namespace Table.AgreeBut

theorem refl (lost : Option V → Prop) (u : Table V) : u.AgreeBut lost u := ⟨rfl, fun _ _ => .rfl⟩

theorem mono (h : u.AgreeBut lost v) (hle : ∀ i, lost i → lost' i) : u.AgreeBut lost' v :=
  ⟨h.primary, fun r hr => h.mem r fun hlost => hr (hle _ hlost)⟩

/-- Both tables exchange what they have under one id, for the same rows unless that id is one of
those. -/
theorem exchange {k : Option V} {added added' : List (Row V)} (h : u.AgreeBut lost v)
    (hu : u.Exchange u' k added) (hv : v.Exchange v' k added')
    (hadded : ∀ r, ¬ lost (r u.primary) → (r ∈ added ↔ r ∈ added')) : u'.AgreeBut lost v' := by
  refine ⟨?_, ?_⟩
  · rw [hu.primary, hv.primary, h.primary]
  · intro r hr
    rw [hu.primary] at hr
    rw [hu.mem, hv.mem, h.mem r hr, hadded r hr, h.primary]

end Table.AgreeBut

section Actions

variable [DecidableEq V] {like : V → Text → Bool} {s : Scope V} {a : RowAction}
  {actions : List RowAction} {new : Row V} {columns : List Text} {cs cs' : List (Change V)}

/-- The row that an upsert leaves under the id of a row. -/
def Effect.upserted (columns : List Text) (new : Row V) (t : Table V) : Row V :=
  match t.rows.find? (fun r => r t.primary = new t.primary) with
  | none => new
  | some old => Row.assign columns old new

theorem Effect.upsert_eq_some (hu : u.Keyed) (h : upsert columns new u = some (u', cs)) :
    ∃ i, new u.primary = some i ∧ upserted columns new u u.primary = some i ∧
      u.Exchange u' (some i) [upserted columns new u] := by
  unfold upsert at h
  unfold upserted
  split at h
  · rename_i hnone
    obtain ⟨i, hi, hfree, hp⟩ := insert_eq_some h
    cases hp
    rw [hnone]
    exact ⟨i, hi, hi, hu.exchange_append hi hfree⟩
  · rename_i old hfound
    cases h
    have hmem := List.mem_of_find?_eq_some hfound
    have hold : old u.primary = new u.primary := by simpa using List.find?_some hfound
    obtain ⟨i, hi⟩ := Option.isSome_iff_exists.1 (hu.hasId old hmem)
    have hnew : new u.primary = some i := hold.symm.trans hi
    have hassign : Row.assign columns old new u.primary = some i := by
      unfold Row.assign
      split
      · exact hnew
      · exact hi
    rw [hfound, hnew]
    exact ⟨i, rfl, hassign, exchange_map hu hassign hmem hi⟩

theorem Table.Keyed.find?_eq_some (hu : u.Keyed) {k : Option V} {r : Row V} :
    u.rows.find? (fun x => x u.primary = k) = some r ↔ r ∈ u.rows ∧ r u.primary = k := by
  constructor
  · intro h
    exact ⟨List.mem_of_find?_eq_some h, by simpa using List.find?_some h⟩
  · rintro ⟨hr, hk⟩
    cases h : u.rows.find? (fun x => x u.primary = k) with
    | none => exact absurd hk (by simpa using List.find?_eq_none.1 h r hr)
    | some x =>
      have hx : x u.primary = k := by simpa using List.find?_some h
      rw [hu.eq_of_id (List.mem_of_find?_eq_some h) hr (hx.trans hk.symm)]

theorem Table.AgreeBut.upserted_eq (h : u.AgreeBut lost v) (hu : u.Keyed) (hv : v.Keyed)
    (hnew : ¬ lost (new u.primary)) :
    Effect.upserted columns new u = Effect.upserted columns new v := by
  have hfind : u.rows.find? (fun r => r u.primary = new u.primary) =
      v.rows.find? (fun r => r v.primary = new v.primary) := by
    apply Option.ext
    intro r
    rw [hu.find?_eq_some, hv.find?_eq_some, ← h.primary]
    constructor
    · rintro ⟨hr, hid⟩
      exact ⟨(h.mem r (hid ▸ hnew)).1 hr, hid⟩
    · rintro ⟨hr, hid⟩
      exact ⟨(h.mem r (hid ▸ hnew)).2 hr, hid⟩
  unfold Effect.upserted
  rw [hfind]

/-- An action treats two tables alike wherever they are alike. -/
theorem Table.AgreeBut.effect (h : u.AgreeBut lost v) (hu : u.Keyed) (hv : v.Keyed)
    (heu : a.effect like s u = some (u', cs)) (hev : a.effect like s v = some (v', cs')) :
    u'.Keyed ∧ v'.Keyed ∧ u'.AgreeBut lost v' := by
  cases a with
  | insert table columns =>
    obtain ⟨i, hi, hfree, hp⟩ := Effect.insert_eq_some heu
    obtain ⟨j, hj, hfree', hp'⟩ := Effect.insert_eq_some hev
    cases hp
    cases hp'
    rw [← h.primary, hi] at hj
    cases hj
    have hexu := hu.exchange_append hi hfree
    have hexv := hv.exchange_append (h.primary ▸ hi) hfree'
    exact ⟨hexu.keyed, hexv.keyed, h.exchange hexu hexv fun _ _ => .rfl⟩
  | upsert table columns =>
    obtain ⟨i, hi, hidu, hexu⟩ := Effect.upsert_eq_some hu heu
    obtain ⟨j, hj, hidv, hexv⟩ := Effect.upsert_eq_some hv hev
    rw [← h.primary, hi] at hj
    cases hj
    refine ⟨hexu.keyed, hexv.keyed, h.exchange hexu hexv ?_⟩
    intro r hr
    by_cases hlost : lost (some i)
    · rw [List.mem_singleton, List.mem_singleton]
      constructor
      · rintro rfl
        exact absurd (hidu.symm ▸ hlost) hr
      · rintro rfl
        exact absurd (h.primary ▸ hidv.symm ▸ hlost) hr
    · rw [h.upserted_eq hu hv (hi.symm ▸ hlost)]
  | delete table condition =>
    cases heu
    cases hev
    refine ⟨hu.filter _, hv.filter _, h.primary, ?_⟩
    intro r hr
    rw [List.mem_filter, List.mem_filter, h.mem r hr]

/-- So do actions one after the other. -/
theorem Table.AgreeBut.evolve (h : u.AgreeBut lost v) (hu : u.Keyed) (hv : v.Keyed)
    (heu : evolve like s actions u = some u') (hev : evolve like s actions v = some v') :
    u'.Keyed ∧ u'.AgreeBut lost v' := by
  induction actions generalizing u v with
  | nil =>
    cases heu
    cases hev
    exact ⟨hu, h⟩
  | cons a actions ih =>
    rw [evolve_cons] at heu hev
    obtain ⟨u₁, hu₁, heu⟩ := Option.bind_eq_some_iff.1 heu
    obtain ⟨v₁, hv₁, hev⟩ := Option.bind_eq_some_iff.1 hev
    obtain ⟨⟨_, cs⟩, hau, rfl⟩ := Option.map_eq_some_iff.1 hu₁
    obtain ⟨⟨_, cs'⟩, hav, rfl⟩ := Option.map_eq_some_iff.1 hv₁
    obtain ⟨hkeyed, hkeyed', hagree⟩ := h.effect hu hv hau hav
    exact ih hagree hkeyed hkeyed' heu hev

end Actions

end Sql

open Sql

variable {V : Type} {lost lost' : Option V → Prop} {like : V → Text → Bool} {ms : List Mirror}
  {m : Mirror} {t t' u u' : Table V}

/-- The mirror's table has the rows of the source that the mirror owns, and no others, but for the
rows with some ids. -/
structure Mirror.HoldsBut (lost : Option V → Prop) (like : V → Text → Bool) (ms : List Mirror)
    (m : Mirror) (source mirror : Table V) : Prop where
  keyed : mirror.Keyed
  agree : ∃ v, m.Holds like ms source v ∧ mirror.AgreeBut lost v

namespace Mirror.HoldsBut

theorem of_holds (lost : Option V → Prop) (h : m.Holds like ms t u) : m.HoldsBut lost like ms t u :=
  ⟨h.keyed, u, h, .refl lost u⟩

theorem mono (h : m.HoldsBut lost like ms t u) (hle : ∀ i, lost i → lost' i) :
    m.HoldsBut lost' like ms t u := by
  obtain ⟨v, hv, hagree⟩ := h.agree
  exact ⟨h.keyed, v, hv, hagree.mono hle⟩

theorem mem_iff (h : m.HoldsBut lost like ms t u) {r : Row V} (hr : ¬ lost (r m.idColumn)) :
    r ∈ u.rows ↔ r ∈ m.ownedRows like ms t.rows := by
  obtain ⟨v, hv, hagree⟩ := h.agree
  rw [hagree.mem r, hv.mem, mem_ownedRows]
  rwa [hagree.primary, hv.primary]

theorem perm (h : m.HoldsBut lost like ms t u) (hlost : ∀ i, ¬ lost i) (ht : t.Keyed)
    (hp : t.primary = m.idColumn) : u.rows.Perm (m.ownedRows like ms t.rows) := by
  rw [List.perm_ext_iff_of_nodup h.keyed.nodup_rows (keyed_ownedRows ht hp).nodup_rows]
  exact fun r => h.mem_iff (hlost _)

/-- The source changes, and the mirror does not: it is now wrong about the rows that have changed. -/
theorem miss (h : m.HoldsBut lost like ms t u) (ht' : t'.Keyed) (hp : t.primary = m.idColumn)
    (hp' : t'.primary = t.primary)
    (hsame : ∀ r, ¬ lost (r t.primary) → (r ∈ t'.rows ↔ r ∈ t.rows)) :
    m.HoldsBut lost like ms t' u := by
  obtain ⟨v, hv, hagree⟩ := h.agree
  refine ⟨h.keyed, _, .filled ht' (hp'.trans hp), hagree.primary.trans hv.primary, ?_⟩
  intro r hr
  rw [hagree.mem r hr, hv.mem, mem_ownedRows]
  rw [hagree.primary, hv.primary] at hr
  constructor
  · rintro ⟨x, hx, how, rfl⟩
    rw [only_idColumn, ← hp] at hr
    exact ⟨x, (hsame x hr).2 hx, how, rfl⟩
  · rintro ⟨x, hx, how, rfl⟩
    rw [only_idColumn, ← hp] at hr
    exact ⟨x, (hsame x hr).1 hx, how, rfl⟩

end Mirror.HoldsBut

end TypedMirror
