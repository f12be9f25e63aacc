import TypedMirror.Proofs.Idempotence
import TypedMirror.Proofs.Installation
import TypedMirror.Proofs.Patterns.Statements

/-!
# Names in a plan

The names that a plan writes are those of its mirrors and their triggers.  They are words if the
mirrors have been defined, so that every statement can be written.

* `Mirror.Named` — a mirror whose names are words, as that of every defined one;
* `Plan.writable_of_mem` — the statements of a plan of such mirrors.
-/

namespace TypedMirror

open Sql

/-- The names of the mirror, its source and its columns are words. -/
def Mirror.Named (m : Mirror) : Prop := ∀ n ∈ m.id :: m.source :: m.columns, n.IsWord

theorem Mirror.Defined.named {m : Mirror} (h : m.Defined) : m.Named :=
  List.forall_mem_cons.2 ⟨h.names.2.toIsWord, h.names.1⟩

namespace Mirror.Named

variable {m : Mirror}

theorem id (h : m.Named) : m.id.IsWord := h _ List.mem_cons_self

theorem source (h : m.Named) : m.source.IsWord := h _ (by simp)

theorem columns (h : m.Named) : ∀ n ∈ (Plan.columnsOf m).all, n.IsWord :=
  fun n hn => h n (List.mem_cons_of_mem _ (List.mem_cons_of_mem _ hn))

theorem idColumn (h : m.Named) : m.idColumn.IsWord := h _ (by simp [Mirror.columns])

theorem keyColumn (h : m.Named) : m.keyColumn.IsWord := h _ (by simp [Mirror.columns])

end Mirror.Named

/-! ## Types -/

theorem Numeral.quoteless_write (n : Nat) : (write n).Quoteless := by
  intro c hc
  have hdigit : c.isDigit = true := isDigit_of_mem_write hc
  exact Text.isQuote_of_isWordChar (by simp [Text.isWordChar, Char.isAlphanum, hdigit])

theorem ValueType.quoteless_columnType (t : ValueType) (args : List Nat) :
    (t.columnType args).Quoteless := by
  have hkeyword : t.keyword.Quoteless := by cases t <;> decide
  have hargs : (joinArgs [','] args).Quoteless := by
    refine .joinWith (by decide) ?_
    intro a ha
    obtain ⟨n, -, rfl⟩ := List.mem_map.1 ha
    exact Numeral.quoteless_write n
  unfold columnType
  split
  · exact hkeyword
  split
  · split
    · decide
    · exact hkeyword
  · exact (hkeyword.append (.append (t := ['(']) (by decide) hargs)).append (by decide)

/-! ## Conditions and actions -/

namespace Plan

variable {m : Mirror} {ms es : List Mirror}

theorem isWord_keyCondition (h : m.Named) (row : Option RowImage) :
    ∀ n ∈ (keyCondition m row).names, n.IsWord := by
  intro n hn
  rw [keyCondition, Condition.names_any] at hn
  obtain ⟨c, hc, hn⟩ := List.mem_flatMap.1 hn
  obtain ⟨pattern, -, rfl⟩ := List.mem_map.1 hc
  rw [List.mem_singleton.1 hn]
  exact h.keyColumn

theorem isWord_claimCondition (h : m.Named) (hes : ∀ e ∈ es, e.Named) {row : Option RowImage}
    {c : Condition} (hc : claimCondition m es row = some c) : ∀ n ∈ c.names, n.IsWord := by
  unfold claimCondition at hc
  split at hc
  · cases hc
  split at hc
  · cases hc
    exact isWord_keyCondition h row
  · cases hc
    refine List.forall_mem_append.2 ⟨isWord_keyCondition h row, ?_⟩
    intro n hn
    rw [Condition.names, Condition.names, Condition.names_any] at hn
    obtain ⟨c, hc, hn⟩ := List.mem_flatMap.1 hn
    obtain ⟨e, he, rfl⟩ := List.mem_map.1 hc
    exact isWord_keyCondition (hes e he) row n hn

theorem isWord_isOldRow (h : m.Named) : ∀ n ∈ (isOldRow m).names, n.IsWord := by
  simpa [isOldRow, Condition.names] using h.idColumn

theorem isWord_writeAction (h : m.Named) (e : Event) : ∀ n ∈ (writeAction m e).names, n.IsWord := by
  cases e with
  | insert => exact List.forall_mem_cons.2 ⟨h.id, h.columns⟩
  | update => exact List.forall_mem_cons.2 ⟨h.id, h.columns⟩
  | delete => exact List.forall_mem_cons.2 ⟨h.id, isWord_isOldRow h⟩

theorem isWord_evictAction (h : m.Named) (hes : ∀ e ∈ es, e.Named) :
    ∀ n ∈ (evictAction m es).names, n.IsWord := by
  refine List.forall_mem_cons.2 ⟨h.id, List.forall_mem_append.2 ⟨isWord_isOldRow h, ?_⟩⟩
  show ∀ n ∈ ((claimCondition m es (some .new)).getD .always).names, n.IsWord
  cases hc : claimCondition m es (some .new) with
  | none => simp [Condition.names]
  | some c => exact isWord_claimCondition h hes hc

theorem isWord_evictions (hes : ∀ e ∈ es, e.Named) (hms : ∀ m ∈ ms, m.Named) :
    ∀ a ∈ evictions es ms, ∀ n ∈ a.names, n.IsWord := by
  induction ms generalizing es with
  | nil => simp [evictions]
  | cons m ms ih =>
    obtain ⟨hm, hms⟩ := List.forall_mem_cons.1 hms
    refine List.forall_mem_cons.2 ⟨isWord_evictAction hm hes, ih ?_ hms⟩
    exact List.forall_mem_append.2 ⟨hes, List.forall_mem_singleton.2 hm⟩

/-! ## Statements -/

theorem isWord_triggerBody (hms : ∀ m ∈ ms, m.Named) (e : Event) :
    ∀ p ∈ triggerBody e ms, ∀ n ∈ p.names, n.IsWord := by
  have hkept : ∀ {p : Mirror → Bool}, ∀ m ∈ ms.filter p, m.Named := fun m hm =>
    hms m (List.mem_filter.1 hm).1
  refine List.forall_mem_cons.2 ⟨?_, ?_⟩
  · -- the branches
    intro n hn
    obtain ⟨b, hb, hn⟩ := List.mem_flatMap.1 hn
    obtain ⟨m, hm, rfl⟩ := List.mem_map.1 hb
    rcases List.mem_append.1 hn with hn | hn
    · exact isWord_keyCondition (hkept m hm) _ n hn
    · exact isWord_writeAction (hkept m hm) e n hn
  · rw [List.forall_mem_map, List.forall_mem_append, List.forall_mem_map]
    refine ⟨?_, fun m hm => isWord_writeAction (hkept m hm) e⟩
    split
    · exact isWord_evictions (by simp) hkept
    · simp

theorem isWord_triggerName {source : Text} (h : source.IsWord) (e : Event) :
    (triggerName e source).IsWord := by
  have hlead : ∀ c ∈ e.word ++ "_mm_".toList, Text.isWordChar c = true :=
    List.all_eq_true.1 (by cases e <;> decide)
  exact ⟨by simp [triggerName], List.forall_mem_append.2 ⟨hlead, h.isWordChar⟩⟩

theorem writable_of_mirrorPlan (h : m.Named) (hes : ∀ e ∈ es, e.Named) :
    ∀ s ∈ (mirrorPlan m es).statements, s.Writable := by
  have hdrops : ∀ s ∈ (mirrorPlan m es).drops, s.Writable := by
    refine List.forall_mem_append.2 ⟨?_, ?_⟩
    · rw [List.forall_mem_map]
      exact fun e _ => ⟨List.forall_mem_singleton.2 (isWord_triggerName h.source e), nofun⟩
    · exact List.forall_mem_singleton.2 ⟨List.forall_mem_singleton.2 h.id, nofun⟩
  have hcreate : (mirrorPlan m es).create.Writable := by
    refine ⟨List.forall_mem_cons.2 ⟨h.id, h.columns⟩, ?_⟩
    rintro _ _ _ ⟨⟩
    exact ValueType.quoteless_columnType m.valueType m.typeArgs
  have hbackfill : (mirrorPlan m es).backfill.Writable := by
    refine ⟨List.forall_mem_append.2 ⟨?_, ?_⟩, nofun⟩
    · exact List.forall_mem_cons.2 ⟨h.id, List.forall_mem_cons.2 ⟨h.source, h.columns⟩⟩
    · cases hc : claimCondition m es none with
      | none => simp
      | some c => exact isWord_claimCondition h hes hc
  refine List.forall_mem_append.2 ⟨hdrops, ?_⟩
  exact List.forall_mem_cons.2 ⟨hcreate, List.forall_mem_singleton.2 hbackfill⟩

theorem writable_of_triggerPlan {source : Text} (hsource : source.IsWord) (hms : ∀ m ∈ ms, m.Named)
    (e : Event) : ∀ s ∈ (triggerPlan source ms e).statements, s.Writable := by
  have hname := isWord_triggerName hsource e
  refine List.forall_mem_cons.2 ⟨⟨List.forall_mem_singleton.2 hname, nofun⟩, ?_⟩
  refine List.forall_mem_singleton.2 ⟨List.forall_mem_cons.2 ⟨hname, ?_⟩, nofun⟩
  exact List.forall_mem_cons.2 ⟨hsource, List.forall_mem_flatMap.2 (isWord_triggerBody hms e)⟩

theorem writable_of_mem {r : Registry} (h : ∀ m ∈ r.mirrors, m.Named) :
    ∀ s ∈ (ofRegistry r).statements, s.Writable := by
  refine List.forall_mem_append.2 ⟨?_, ?_⟩
  · rw [List.forall_mem_flatMap]
    refine List.forall_mem_map.2 ?_
    intro m hm
    refine writable_of_mirrorPlan (h m hm) ?_
    intro e he
    have hmem := (List.takeWhile_sublist _).subset (List.mem_filter.1 he).1
    exact h e (List.mem_filter.1 hmem).1
  · rw [List.forall_mem_flatMap, ofRegistry, List.forall_mem_flatMap]
    intro source hsource
    obtain ⟨m, hm, rfl⟩ := Registry.mem_sourceTables.1 hsource
    refine List.forall_mem_map.2 fun e _ => writable_of_triggerPlan (h m hm).source ?_ e
    exact fun x hx => h x (List.mem_filter.1 hx).1

end Plan

end TypedMirror
