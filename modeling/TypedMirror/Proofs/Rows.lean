import Mathlib.Data.List.Nodup
import TypedMirror.Proofs.Database

/-!
# The rows of a keyed table

In a keyed table every row has an id, and no two rows have the same.  An effect on such a table
exchanges what is there under one id, and the table stays keyed.

* `insert_of_fresh`, `insert_eq_some` — a row with an id that is free;
* `upsert_of_keyed`, `replace_same_id` — a row in place of the one with its id;
* `replace_fresh` — a row in place of one with another id;
* `delete_of_keyed` — the row with an id goes;
* `Write.effect_of_keyed` — what a write of the host changes.
-/

namespace TypedMirror.Sql

variable {V : Type}

/-- Every row has an id, and no two rows have the same. -/
structure Table.Keyed (t : Table V) : Prop where
  hasId : ∀ r ∈ t.rows, (r t.primary).isSome
  nodup : (t.rows.map (· t.primary)).Nodup

namespace Table.Keyed

variable {t : Table V} {new x y : Row V} {i : V}

theorem eq_of_id (h : t.Keyed) (hx : x ∈ t.rows) (hy : y ∈ t.rows)
    (hid : x t.primary = y t.primary) : x = y :=
  List.inj_on_of_nodup_map h.nodup hx hy hid

theorem nodup_rows (h : t.Keyed) : t.rows.Nodup := h.nodup.of_map

theorem append (h : t.Keyed) (hi : new t.primary = some i)
    (hfree : ∀ r ∈ t.rows, r t.primary ≠ some i) : Keyed ⟨t.primary, t.rows ++ [new]⟩ := by
  refine ⟨?_, ?_⟩
  · intro r hr
    rcases List.mem_append.1 hr with hr | hr
    · exact h.hasId r hr
    · show (r t.primary).isSome
      simp [List.mem_singleton.1 hr, hi]
  · show ((t.rows ++ [new]).map (· t.primary)).Nodup
    rw [List.map_append, List.nodup_append]
    refine ⟨h.nodup, by simp, ?_⟩
    rintro a ha b hb rfl
    obtain ⟨r, hr, hra⟩ := List.mem_map.1 ha
    rw [List.map_singleton, List.mem_singleton] at hb
    exact hfree r hr (hra.trans (hb.trans hi))

theorem filter (h : t.Keyed) (p : Row V → Bool) : Keyed ⟨t.primary, t.rows.filter p⟩ :=
  ⟨fun r hr => h.hasId r (List.mem_of_mem_filter hr), h.nodup.sublist (List.filter_sublist.map _)⟩

/-- Rows may change as long as their ids do not. -/
theorem map {f : Row V → Row V} (h : t.Keyed)
    (hf : ∀ r ∈ t.rows, f r t.primary = r t.primary) : Keyed ⟨t.primary, t.rows.map f⟩ := by
  refine ⟨?_, ?_⟩
  · intro r hr
    obtain ⟨x, hx, rfl⟩ := List.mem_map.1 hr
    show (f x t.primary).isSome
    rw [hf x hx]
    exact h.hasId x hx
  · show ((t.rows.map f).map (· t.primary)).Nodup
    have hids : (t.rows.map f).map (· t.primary) = t.rows.map (· t.primary) := by
      rw [List.map_map]
      exact List.map_congr_left hf
    rw [hids]
    exact h.nodup

variable [DecidableEq V]

/-- At most one row has a given id. -/
theorem filter_id (h : t.Keyed) (i : V) :
    (∀ r ∈ t.rows, r t.primary ≠ some i) ∨
      ∃ old ∈ t.rows, old t.primary = some i ∧ t.rows.filter (· t.primary = some i) = [old] := by
  by_cases hold : ∃ old ∈ t.rows, old t.primary = some i
  · obtain ⟨old, hmem, hi⟩ := hold
    refine .inr ⟨old, hmem, hi, ?_⟩
    have hnodup : (t.rows.filter (· t.primary = some i)).Nodup := h.nodup_rows.filter _
    apply List.perm_singleton.1
    rw [List.perm_ext_iff_of_nodup hnodup (List.nodup_singleton old)]
    intro r
    rw [List.mem_filter, List.mem_singleton, decide_eq_true_eq]
    constructor
    · rintro ⟨hr, hri⟩
      exact h.eq_of_id hr hmem (hri.trans hi.symm)
    · rintro rfl
      exact ⟨hmem, hi⟩
  · refine .inl ?_
    intro r hr hi
    exact hold ⟨r, hr, hi⟩

end Table.Keyed

/-- What is in the table under one id gives way to other rows. -/
structure Table.Exchange (t t' : Table V) (id : Option V) (added : List (Row V)) : Prop where
  primary : t'.primary = t.primary
  keyed : t'.Keyed
  mem : ∀ r, r ∈ t'.rows ↔ (r ∈ t.rows ∧ r t.primary ≠ id) ∨ r ∈ added

theorem Table.Exchange.mem_of_ne {t t' : Table V} {id : Option V} {added : List (Row V)}
    {r : Row V} (h : t.Exchange t' id added) (hadded : ∀ x ∈ added, x t.primary = id)
    (hr : r t.primary ≠ id) : r ∈ t'.rows ↔ r ∈ t.rows := by
  have hnot : r ∉ added := fun hmem => hr (hadded r hmem)
  rw [h.mem]
  simp [hr, hnot]

/-- Nothing under the id, and nothing added. -/
theorem Table.Keyed.exchange_self {t : Table V} {id : Option V} (h : t.Keyed)
    (hfree : ∀ r ∈ t.rows, r t.primary ≠ id) : t.Exchange t id [] := by
  refine ⟨rfl, h, ?_⟩
  intro r
  constructor
  · intro hr
    exact .inl ⟨hr, hfree r hr⟩
  · rintro (⟨hr, -⟩ | hr)
    · exact hr
    · cases hr

theorem Table.Keyed.exchange_append {t : Table V} {new : Row V} {i : V} (h : t.Keyed)
    (hi : new t.primary = some i) (hfree : ∀ r ∈ t.rows, r t.primary ≠ some i) :
    t.Exchange ⟨t.primary, t.rows ++ [new]⟩ (some i) [new] := by
  refine ⟨rfl, h.append hi hfree, ?_⟩
  intro r
  rw [List.mem_append]
  exact or_congr_left ⟨fun hr => ⟨hr, hfree r hr⟩, fun hr => hr.1⟩

/-! ## Effects -/

namespace Effect

variable [DecidableEq V] {t : Table V} {new old : Row V} {i : V}

theorem insert_of_fresh (hi : new t.primary = some i) (hfree : ∀ r ∈ t.rows, r t.primary ≠ some i) :
    insert new t = some (⟨t.primary, t.rows ++ [new]⟩, [.insert new]) := by
  unfold insert
  split
  · rename_i h
    rw [hi] at h
    cases h
  · rename_i j h
    rw [hi] at h
    cases h
    rw [if_neg]
    simpa using hfree

theorem insert_eq_some {p : Table V × List (Change V)} (h : insert new t = some p) :
    ∃ i, new t.primary = some i ∧ (∀ r ∈ t.rows, r t.primary ≠ some i) ∧
      p = (⟨t.primary, t.rows ++ [new]⟩, [.insert new]) := by
  unfold insert at h
  split at h
  · cases h
  · rename_i j hj
    split at h
    · cases h
    · rename_i hfree
      refine ⟨j, hj, ?_, (Option.some.inj h).symm⟩
      simpa using hfree

/-- The rows with an id become one row with that id. -/
theorem exchange_map (h : t.Keyed) (hi : new t.primary = some i) (hmem : old ∈ t.rows)
    (hold : old t.primary = some i) :
    t.Exchange ⟨t.primary, t.rows.map fun r => if r t.primary = some i then new else r⟩ (some i)
      [new] := by
  refine ⟨rfl, ?_, ?_⟩
  · apply h.map
    intro r _
    by_cases hr : r t.primary = some i
    · rw [if_pos hr, hi, hr]
    · rw [if_neg hr]
  · intro r
    rw [List.mem_map, List.mem_singleton]
    constructor
    · rintro ⟨x, hx, rfl⟩
      by_cases hxi : x t.primary = some i
      · exact .inr (if_pos hxi)
      · rw [if_neg hxi]
        exact .inl ⟨hx, hxi⟩
    · rintro (⟨hr, hri⟩ | rfl)
      · exact ⟨r, hr, if_neg hri⟩
      · exact ⟨old, hmem, if_pos hold⟩

theorem upsert_of_fresh (columns : List Text) (hi : new t.primary = some i)
    (hfree : ∀ r ∈ t.rows, r t.primary ≠ some i) :
    upsert columns new t = some (⟨t.primary, t.rows ++ [new]⟩, [.insert new]) := by
  have hnone : t.rows.find? (fun r => r t.primary = some i) = none := by
    simpa using hfree
  simp only [upsert, hi, hnone]
  exact insert_of_fresh hi hfree

/-- If the new row takes over all that is kept of the old one, it then stands under its id. -/
theorem upsert_of_keyed (columns : List Text) (h : t.Keyed) (hi : new t.primary = some i)
    (hover : ∀ old ∈ t.rows, old t.primary = some i → Row.assign columns old new = new) :
    ∃ t', (upsert columns new t).map (·.1) = some t' ∧ t.Exchange t' (some i) [new] := by
  cases hold : t.rows.find? (fun r => r t.primary = some i) with
  | none =>
    have hfree : ∀ r ∈ t.rows, r t.primary ≠ some i := by
      intro r hr
      simpa using List.find?_eq_none.1 hold r hr
    refine ⟨_, ?_, h.exchange_append hi hfree⟩
    rw [upsert_of_fresh columns hi hfree]
    rfl
  | some old =>
    have hmem := List.mem_of_find?_eq_some hold
    have hold' : old t.primary = some i := by simpa using List.find?_some hold
    refine ⟨_, ?_, exchange_map h hi hmem hold'⟩
    simp only [upsert, hi, hold, hover old hmem hold', Option.map_some]

omit [DecidableEq V] in
theorem delete_of_keyed {gone : Row V → Bool} (h : t.Keyed)
    (hgone : ∀ r ∈ t.rows, (gone r = true ↔ r t.primary = some i)) :
    t.Exchange ⟨t.primary, t.rows.filter (!gone ·)⟩ (some i) [] := by
  refine ⟨rfl, h.filter _, ?_⟩
  intro r
  rw [List.mem_filter, Bool.not_eq_true', ← Bool.not_eq_true]
  constructor
  · rintro ⟨hr, hg⟩
    exact .inl ⟨hr, fun hi => hg ((hgone r hr).2 hi)⟩
  · rintro (⟨hr, hi⟩ | hr)
    · exact ⟨hr, fun hg => hi ((hgone r hr).1 hg)⟩
    · cases hr

/-- A row in place of another with the same id. -/
theorem replace_same_id (hi : new t.primary = some i) :
    replace i new t = some (⟨t.primary, t.rows.map fun r => if r t.primary = some i then new else r⟩,
      (t.rows.filter (· t.primary = some i)).map (.update · new)) := by
  unfold replace
  split
  · rename_i hn
    rw [hi] at hn
    cases hn
  · rename_i j hj
    rw [hi] at hj
    cases hj
    simp

/-- A row in place of another, under an id that is free. -/
theorem replace_fresh {j : V} (h : t.Keyed) (hj : new t.primary = some j)
    (hfree : ∀ r ∈ t.rows, r t.primary ≠ some j) (hmem : old ∈ t.rows)
    (hold : old t.primary = some i) :
    replace i new t = some (⟨t.primary, t.rows.map fun r => if r t.primary = some i then new else r⟩,
      [.update old new]) := by
  have hone : t.rows.filter (· t.primary = some i) = [old] := by
    rcases h.filter_id i with hno | ⟨x, hx, hxi, hone⟩
    · exact absurd hold (hno old hmem)
    · rwa [h.eq_of_id hx hmem (hxi.trans hold.symm)] at hone
  unfold replace
  split
  · rename_i hn
    rw [hj] at hn
    cases hn
  · rename_i k hk
    rw [hj] at hk
    cases hk
    rw [if_neg (by simpa using fun _ => hfree), hone]
    rfl

end Effect

/-! ## Changes and writes -/

namespace Change

/-- The id under which a change takes place. -/
def id (primary : Text) : Change V → Option V
  | .insert new => new primary
  | .update old _ => old primary
  | .delete old => old primary

/-- The row that is there after a change. -/
def added : Change V → List (Row V)
  | .insert new => [new]
  | .update _ new => [new]
  | .delete _ => []

/-- A change that a table can go through: a row with a free id comes, or a row that is there goes or
changes under its id. -/
def Within (t : Table V) : Change V → Prop
  | .insert new => (new t.primary).isSome ∧ ∀ r ∈ t.rows, r t.primary ≠ new t.primary
  | .update old new => old ∈ t.rows ∧ new t.primary = old t.primary
  | .delete old => old ∈ t.rows

theorem isSome_id {t : Table V} {c : Change V} (ht : t.Keyed) (hc : c.Within t) :
    ∃ i, c.id t.primary = some i := by
  apply Option.isSome_iff_exists.1
  cases c with
  | insert new => exact hc.1
  | update old new => exact ht.hasId old hc.1
  | delete old => exact ht.hasId old hc

theorem Within.id_of_mem_added {t : Table V} {c : Change V} {r : Row V} (hc : c.Within t)
    (hr : r ∈ c.added) : r t.primary = c.id t.primary := by
  cases c with
  | insert new => rw [List.mem_singleton.1 hr, id]
  | update old new => rw [List.mem_singleton.1 hr, id, hc.2]
  | delete old => cases hr

end Change

namespace Write

variable [DecidableEq V]

/-- The write leaves the id of the row as it is. -/
def KeepsId (primary : Text) : Write V → Prop
  | .insert _ _ => True
  | .delete _ _ => True
  | .update _ id row => row primary = some id

/-- The id of the row that is written. -/
def rowId (primary : Text) : Write V → Option V
  | .insert _ row => row primary
  | .delete _ id => some id
  | .update _ id _ => some id

/-- A write to a keyed table finds nothing to change, or changes one row. -/
theorem effect_of_keyed {t t' : Table V} {w : Write V} {cs : List (Change V)} (ht : t.Keyed)
    (hw : w.KeepsId t.primary) (h : w.effect t = some (t', cs)) :
    (cs = [] ∧ (∀ r ∈ t.rows, r t.primary ≠ w.rowId t.primary) ∧
        t.Exchange t' (w.rowId t.primary) []) ∨
      ∃ c, cs = [c] ∧ c.Within t ∧ c.id t.primary = w.rowId t.primary ∧
        t.Exchange t' (w.rowId t.primary) c.added := by
  cases w with
  | insert table row =>
    obtain ⟨i, hi, hfree, hp⟩ := Effect.insert_eq_some h
    cases hp
    refine .inr ⟨.insert row, rfl, ⟨by simp [hi], by simpa [hi] using hfree⟩, rfl, ?_⟩
    show t.Exchange _ (row t.primary) [row]
    rw [hi]
    exact ht.exchange_append hi hfree
  | delete table i =>
    cases h
    have hex : t.Exchange ⟨t.primary, t.rows.filter fun r => !decide (r t.primary = some i)⟩
        (some i) [] := Effect.delete_of_keyed ht fun r _ => decide_eq_true_iff
    rcases ht.filter_id i with hno | ⟨old, hold, hi, hone⟩
    · refine .inl ⟨?_, hno, hex⟩
      rw [List.map_eq_nil_iff, List.filter_eq_nil_iff]
      intro r hr
      simpa using hno r hr
    · exact .inr ⟨.delete old, by rw [hone]; rfl, hold, hi, hex⟩
  | update table i row =>
    have hrow : row t.primary = some i := hw
    have heq := (Effect.replace_same_id hrow).symm.trans h
    cases heq
    rcases ht.filter_id i with hno | ⟨old, hold, hi, hone⟩
    · have hrows : (t.rows.map fun r => if r t.primary = some i then row else r) = t.rows := by
        refine (List.map_congr_left ?_).trans (List.map_id' t.rows)
        intro r hr
        exact if_neg (hno r hr)
      refine .inl ⟨?_, hno, ?_⟩
      · rw [List.map_eq_nil_iff, List.filter_eq_nil_iff]
        intro r hr
        simpa using hno r hr
      · rw [hrows]
        exact ht.exchange_self hno
    · exact .inr ⟨.update old row, by rw [hone]; rfl, ⟨hold, hrow.trans hi.symm⟩, hi,
        Effect.exchange_map ht hrow hold hi⟩

/-- A write exchanges what is there under the id of its row. -/
theorem exchange_of_keyed {t t' : Table V} {w : Write V} {cs : List (Change V)} (ht : t.Keyed)
    (hw : w.KeepsId t.primary) (h : w.effect t = some (t', cs)) :
    ∃ added, (∀ r ∈ added, r t.primary = w.rowId t.primary) ∧
      t.Exchange t' (w.rowId t.primary) added := by
  rcases effect_of_keyed ht hw h with ⟨-, -, hex⟩ | ⟨c, -, hc, hid, hex⟩
  · exact ⟨[], fun r hr => (List.not_mem_nil hr).elim, hex⟩
  · exact ⟨c.added, fun r hr => (hc.id_of_mem_added hr).trans hid, hex⟩

end Write

end TypedMirror.Sql
