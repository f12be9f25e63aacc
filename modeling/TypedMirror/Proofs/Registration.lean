import Mathlib.Data.List.Nodup
import TypedMirror.Plan.Basic
import TypedMirror.Proofs.Outcome

/-!
# What registration leads to

The setups that a host reaches from an empty one by registering mirrors over a catalog and adding
keys to them.

* `Index.Agrees` — the index gives the position of each mirror, and no other;
* `Registered.nodup_ids` — no two mirrors have one id;
* `Registered.columns_of_catalog` — a mirror has the columns that the catalog gives its source.
-/

namespace TypedMirror

/-! ## One step -/

namespace Mirror

variable {m m' : Mirror} {c : Catalog} {source type pattern : Text} {args : List Text}

theorem addKey_eq_ok (h : m.addKey pattern = .ok m') :
    m' = { m with whitelist := m.whitelist ++ [pattern] } := by
  unfold addKey at h
  split at h
  · cases h
  · exact (Except.ok.inj h).symm

/-- A mirror that is defined takes its columns from the table of its source. -/
theorem define_eq_ok {t : ValueType} {ns : List Nat} (h : define c source t ns = .ok m) :
    m.source = source ∧ m.whitelist = [] ∧ ∃ table, c.get? source = some table ∧
      Plan.columnsOf m =
        ⟨table.idColumn, table.objectColumn, table.keyColumn, table.valueColumn⟩ := by
  unfold define at h
  cases ht : c.get? source with
  | none => simp [ht] at h
  | some table =>
    simp only [ht, bind, Except.bind, pure, Except.pure] at h
    split at h
    · cases h
    · split at h
      · cases h
      · cases h
        exact ⟨rfl, rfl, table, rfl, rfl⟩

theorem read_eq_ok (h : read c source type args = .ok m) :
    ∃ t, ValueType.read type = .ok t ∧ define c source t (ValueType.readArgs args) = .ok m :=
  bind_eq_ok.1 h

end Mirror

namespace Setup

variable {s s' : Setup} {m : Mirror} {id source type pattern : Text} {args : List Text}

theorem add_eq_ok (h : s.add m = .ok s') :
    s.index.lookup m.id = none ∧ s' = { s with
      mirrors := s.mirrors ++ [m], index := (m.id, s.mirrors.length) :: s.index } := by
  obtain ⟨-, -, h⟩ := bind_eq_ok.1 h
  cases hl : s.index.lookup m.id with
  | some i =>
    rw [hl] at h
    cases h
  | none =>
    rw [hl] at h
    exact ⟨rfl, (Except.ok.inj h).symm⟩

theorem register_eq_ok (h : s.register source type args = .ok (s', id)) :
    ∃ m, Mirror.read s.catalog source type args = .ok m ∧ s.add m = .ok s' ∧ id = m.id := by
  obtain ⟨-, -, h⟩ := bind_eq_ok.1 h
  obtain ⟨m, hm, h⟩ := bind_eq_ok.1 h
  obtain ⟨s₁, ha, h⟩ := bind_eq_ok.1 h
  cases h
  exact ⟨m, hm, ha, rfl⟩

theorem addKey_eq_ok (h : s.addKey id pattern = .ok s') :
    ∃ i m m', s.entry? id = some (i, m) ∧ m.addKey pattern = .ok m' ∧
      s' = { s with mirrors := s.mirrors.set i m' } := by
  obtain ⟨-, -, h⟩ := bind_eq_ok.1 h
  cases he : s.entry? id with
  | none =>
    rw [he] at h
    cases h
  | some p =>
    rw [he] at h
    obtain ⟨m', ha, h⟩ := bind_eq_ok.1 h
    exact ⟨p.1, p.2, m', rfl, ha, (Except.ok.inj h).symm⟩

end Setup

/-! ## The index -/

namespace Index

variable {index : Index} {ms : List Mirror} {id pattern : Text} {i : Nat} {m m' : Mirror}

/-- The index gives for each id the position of the mirror with it. -/
def Agrees (index : Index) (ms : List Mirror) : Prop :=
  ∀ id i, index.lookup id = some i ↔ ms[i]?.map (·.id) = some id

theorem entry?_eq_some : entry? index ms id = some (i, m) ↔
    index.lookup id = some i ∧ ms[i]? = some m := by
  unfold entry?
  cases index.lookup id with
  | none => simp
  | some j => cases h : ms[j]? <;> grind

theorem Agrees.nil : Agrees [] [] := by
  intro id i
  simp

namespace Agrees

theorem lookup_id (h : Agrees index ms) (hm : ms[i]? = some m) : index.lookup m.id = some i :=
  (h m.id i).2 (by rw [hm]; rfl)

/-- Every position is one of the list. -/
theorem exists_of_lookup (h : Agrees index ms) (hi : index.lookup id = some i) :
    ∃ m, ms[i]? = some m ∧ m.id = id :=
  Option.map_eq_some_iff.1 ((h id i).1 hi)

theorem mem_ids_of_lookup (h : Agrees index ms) (hi : index.lookup id = some i) :
    id ∈ ms.map (·.id) := by
  obtain ⟨m, hm, rfl⟩ := h.exists_of_lookup hi
  exact List.mem_map_of_mem (List.mem_of_getElem? hm)

theorem entry?_iff (h : Agrees index ms) :
    entry? index ms id = some (i, m) ↔ ms[i]? = some m ∧ m.id = id := by
  rw [entry?_eq_some, h, and_comm]
  constructor
  · rintro ⟨hm, hid⟩
    rw [hm] at hid
    exact ⟨hm, Option.some.inj hid⟩
  · rintro ⟨hm, rfl⟩
    exact ⟨hm, by rw [hm]; rfl⟩

theorem entry?_eq_none (h : Agrees index ms) :
    entry? index ms id = none ↔ id ∉ ms.map (·.id) := by
  constructor
  · intro hnone hmem
    obtain ⟨m, hm, rfl⟩ := List.mem_map.1 hmem
    obtain ⟨i, hi⟩ := List.getElem?_of_mem hm
    rw [h.entry?_iff.2 ⟨hi, rfl⟩] at hnone
    cases hnone
  · intro hnew
    cases he : entry? index ms id with
    | none => rfl
    | some p =>
      obtain ⟨hi, rfl⟩ := h.entry?_iff.1 he
      exact absurd (List.mem_map_of_mem (List.mem_of_getElem? hi)) hnew

theorem nodup_ids (h : Agrees index ms) : (ms.map (·.id)).Nodup := by
  rw [List.nodup_iff_injective_getElem]
  rintro ⟨i, hi⟩ ⟨j, hj⟩ hij
  have hlookup : ∀ k (hk : k < (ms.map (·.id)).length),
      index.lookup (ms.map (·.id))[k] = some k := by
    intro k hk
    rw [h, ← List.getElem?_map, List.getElem?_eq_getElem hk]
  have hi' := hlookup i hi
  rw [show (ms.map (·.id))[i] = (ms.map (·.id))[j] from hij, hlookup j hj] at hi'
  exact Fin.ext (Option.some.inj hi').symm

theorem lookup_eq_none (h : Agrees index ms) : index.lookup id = none ↔ id ∉ ms.map (·.id) := by
  constructor
  · intro hnone hmem
    obtain ⟨m, hm, rfl⟩ := List.mem_map.1 hmem
    obtain ⟨i, hi⟩ := List.getElem?_of_mem hm
    rw [h.lookup_id hi] at hnone
    cases hnone
  · intro hnew
    cases hi : index.lookup id with
    | none => rfl
    | some i => exact absurd (h.mem_ids_of_lookup hi) hnew

theorem append (h : Agrees index ms) (hnew : index.lookup m.id = none) :
    Agrees ((m.id, ms.length) :: index) (ms ++ [m]) := by
  intro id i
  have hold := h id i
  rcases Nat.lt_trichotomy i ms.length with hi | rfl | hi
  · rw [List.getElem?_append_left hi, ← hold, List.lookup_cons]
    split
    · rename_i heq
      rw [eq_of_beq heq, hnew]
      simp [Nat.ne_of_gt hi]
    · rfl
  · rw [List.getElem?_concat_length, List.lookup_cons]
    split
    · rename_i heq
      simp [eq_of_beq heq]
    · rename_i hne
      have hnone : ms[ms.length]? = none := List.getElem?_eq_none (Nat.le_refl _)
      have hne : id ≠ m.id := by simpa using hne
      rw [hold, hnone]
      simp [hne.symm]
  · have hnone : ms[i]? = none := List.getElem?_eq_none (Nat.le_of_lt hi)
    have hnone' : (ms ++ [m])[i]? = none := List.getElem?_eq_none (by simp; omega)
    rw [hnone', List.lookup_cons]
    split
    · simp [Nat.ne_of_lt hi]
    · rw [hold, hnone]

/-- A mirror may change as long as its id does not. -/
theorem set (h : Agrees index ms) (hm : ms[i]? = some m) (hid : m'.id = m.id) :
    Agrees index (ms.set i m') := by
  intro id j
  rw [h, List.getElem?_set]
  split
  · rename_i hij
    subst hij
    rw [if_pos (List.getElem?_eq_some_iff.1 hm).1, hm, Option.map_some, Option.map_some, hid]
  · rfl

end Agrees

end Index

namespace Setup

variable {s s' : Setup} {i : Nat} {m : Mirror} {id pattern : Text}

theorem mem_of_entry? (h : s.entry? id = some (i, m)) : m ∈ s.mirrors :=
  List.mem_of_getElem? (Index.entry?_eq_some.1 h).2

theorem agrees_of_add (hs : s.index.Agrees s.mirrors) (h : s.add m = .ok s') :
    s'.index.Agrees s'.mirrors := by
  obtain ⟨hnew, rfl⟩ := add_eq_ok h
  exact hs.append hnew

theorem agrees_of_addKey (hs : s.index.Agrees s.mirrors) (h : s.addKey id pattern = .ok s') :
    s'.index.Agrees s'.mirrors := by
  obtain ⟨i, m, m', he, hm, rfl⟩ := addKey_eq_ok h
  exact hs.set (Index.entry?_eq_some.1 he).2 (by rw [Mirror.addKey_eq_ok hm])

end Setup

/-! ## All steps -/

/-- What registering mirrors and adding keys over a catalog leads to. -/
inductive Registered (c : Catalog) : Setup → Prop
  | start : Registered c (.start c)
  | register {s s' : Setup} {source type id : Text} {args : List Text} (h : Registered c s)
      (hr : s.register source type args = .ok (s', id)) : Registered c s'
  | addKey {s s' : Setup} {id pattern : Text} (h : Registered c s)
      (hk : s.addKey id pattern = .ok s') : Registered c s'

namespace Registered

variable {c : Catalog} {s : Setup}

theorem catalog_eq (h : Registered c s) : s.catalog = c := by
  induction h with
  | start => rfl
  | register _ hr ih =>
    obtain ⟨m, -, ha, -⟩ := Setup.register_eq_ok hr
    rw [(Setup.add_eq_ok ha).2]
    exact ih
  | addKey _ hk ih =>
    obtain ⟨i, m, m', -, -, rfl⟩ := Setup.addKey_eq_ok hk
    exact ih

theorem agrees (h : Registered c s) : s.index.Agrees s.mirrors := by
  induction h with
  | start => exact .nil
  | register _ hr ih =>
    obtain ⟨m, -, ha, -⟩ := Setup.register_eq_ok hr
    exact Setup.agrees_of_add ih ha
  | addKey _ hk ih => exact Setup.agrees_of_addKey ih hk

theorem nodup_ids (h : Registered c s) : (s.mirrors.map (·.id)).Nodup := h.agrees.nodup_ids

/-- What holds of a mirror that is read, and still holds when keys are added, holds of all that are
registered. -/
theorem of_read {P : Mirror → Prop} (h : Registered c s)
    (hread : ∀ {source type args m}, Mirror.read c source type args = .ok m → P m)
    (hkey : ∀ {m m' pattern}, P m → m.addKey pattern = .ok m' → P m') : ∀ m ∈ s.mirrors, P m := by
  induction h with
  | start => simp [Setup.start]
  | register h hr ih =>
    obtain ⟨m, hm, ha, -⟩ := Setup.register_eq_ok hr
    obtain ⟨-, rfl⟩ := Setup.add_eq_ok ha
    rw [h.catalog_eq] at hm
    intro x hx
    rcases List.mem_append.1 hx with hx | hx
    · exact ih x hx
    · rw [List.mem_singleton.1 hx]
      exact hread hm
  | addKey _ hk ih =>
    obtain ⟨i, m, m', he, hm, rfl⟩ := Setup.addKey_eq_ok hk
    intro x hx
    rcases List.mem_or_eq_of_mem_set hx with hx | rfl
    · exact ih x hx
    · exact hkey (ih m (Setup.mem_of_entry? he)) hm

theorem columns_of_catalog (h : Registered c s) : ∀ m ∈ s.mirrors,
    ∃ t, c.get? m.source = some t ∧
      Plan.columnsOf m = ⟨t.idColumn, t.objectColumn, t.keyColumn, t.valueColumn⟩ := by
  refine h.of_read ?_ ?_
  · intro source type args m hread
    obtain ⟨t, -, hdefine⟩ := Mirror.read_eq_ok hread
    obtain ⟨rfl, -, hcolumns⟩ := Mirror.define_eq_ok hdefine
    exact hcolumns
  · intro m m' pattern hm hkey
    rw [Mirror.addKey_eq_ok hkey]
    exact hm

/-- The mirrors of one source have the same columns. -/
theorem columnsOf_eq (h : Registered c s) {m m' : Mirror} (hm : m ∈ s.mirrors)
    (hm' : m' ∈ s.mirrors) (hs : m.source = m'.source) : Plan.columnsOf m = Plan.columnsOf m' := by
  obtain ⟨t, ht, hc⟩ := h.columns_of_catalog m hm
  obtain ⟨t', ht', hc'⟩ := h.columns_of_catalog m' hm'
  rw [hs, ht'] at ht
  cases ht
  rw [hc, hc']

end Registered

/-! ## An example -/

namespace Sample

/-- A mirror of the colours of posts. -/
def colours : Mirror where
  id := "wp_postmeta_mm_varchar_16".toList
  source := "wp_postmeta".toList
  idColumn := "meta_id".toList
  objectColumn := "post_id".toList
  keyColumn := "meta_key".toList
  valueColumn := "meta_value".toList
  valueType := .varchar
  typeArgs := [16]
  whitelist := ["colour".toList]

def setup : Setup := ⟨.standard, .isOpen, [colours], [(colours.id, 0)]⟩

theorem registered : Registered .standard setup := by
  have hregister : (Setup.start .standard).register "wp_postmeta".toList "varchar".toList
      ["16".toList] = .ok ({ setup with mirrors := [{ colours with whitelist := [] }] },
        colours.id) := by decide +kernel
  have hkey : Setup.addKey { setup with mirrors := [{ colours with whitelist := [] }] } colours.id
      "colour".toList = .ok setup := by decide +kernel
  exact .addKey (.register .start hregister) hkey

end Sample

end TypedMirror
