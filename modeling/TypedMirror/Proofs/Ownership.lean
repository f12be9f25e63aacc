import Mathlib.Data.List.Find
import TypedMirror.Proofs.Database
import TypedMirror.Proofs.Registration

/-!
# Which mirror owns a key

Of the mirrors of a source, a key belongs to the first in order of registration with a pattern that
matches it, and to each mirror of every key.  A row without a key belongs to the latter only.  The
backfill, the branches of the triggers and the evictions each say this in their own way.

* `holds_claimCondition` — the condition of the backfill and of the evictions;
* `action?_choose` — the branch that a chain of key conditions enters;
* `actionsOn_bodyActions` — what a trigger does to one mirror.
-/

namespace TypedMirror

open Sql

variable {V : Type} (like : V → Text → Bool)

/-- The mirrors before the one with an id. -/
def Mirror.before (ms : List Mirror) (m : Mirror) : List Mirror := ms.takeWhile (·.id != m.id)

/-- One of the mirror's patterns matches the key. -/
def Mirror.takes (m : Mirror) (key : V) : Bool := Condition.matchesOne like m.whitelist key

/-- Whether a mirror owns the rows with a key, `ms` being the mirrors of its source. -/
def Mirror.owns (ms : List Mirror) (m : Mirror) (key : Option V) : Bool :=
  m.isUnfiltered || key.any fun k => m.takes like k && !(m.before ms).any (·.takes like k)

/-- The first whitelisted mirror with a pattern that matches the key. -/
def Mirror.owner? (ms : List Mirror) (key : Option V) : Option Mirror :=
  (ms.filter (!·.isUnfiltered)).find? fun m => key.any (m.takes like)

namespace Mirror

variable {like} {ms : List Mirror} {m : Mirror}

theorem takes_of_isUnfiltered (h : m.isUnfiltered) (key : V) : m.takes like key = false := by
  have : m.whitelist = [] := List.isEmpty_iff.1 h
  simp [takes, Condition.matchesOne, this]

theorem whitelist_ne_nil (h : m.isUnfiltered = false) : m.whitelist ≠ [] := by
  intro hw
  simp [isUnfiltered, hw] at h

theorem owns_of_isUnfiltered (h : m.isUnfiltered) (key : Option V) : m.owns like ms key = true := by
  simp [owns, h]

theorem owns_eq (h : m.isUnfiltered = false) (key : Option V) :
    m.owns like ms key = key.any fun k => m.takes like k && !(m.before ms).any (·.takes like k) := by
  simp [owns, h]

variable (like) in
/-- Mirrors without patterns take nothing, so that it makes no difference whether they are left
out. -/
theorem any_takes_filter (ms : List Mirror) (key : V) :
    (ms.filter (!·.isUnfiltered)).any (·.takes like key) = ms.any (·.takes like key) := by
  induction ms with
  | nil => rfl
  | cons m ms ih =>
    cases h : m.isUnfiltered with
    | true => simp [h, takes_of_isUnfiltered h, ih]
    | false => simp [h, ih]

/-! ## Lists without a repeated id -/

theorem before_cons_self : m.before (m :: ms) = [] := by simp [before]

theorem before_cons_of_ne {x : Mirror} (h : x.id ≠ m.id) : m.before (x :: ms) = x :: m.before ms := by
  simp [before, h]

theorem id_ne_of_mem {x : Mirror} (hx : x.id ∉ ms.map (·.id)) (hm : m ∈ ms) : x.id ≠ m.id := by
  intro h
  exact hx (h ▸ List.mem_map_of_mem hm)

theorem before_subset : m.before ms ⊆ ms := (List.takeWhile_sublist _).subset

/-- What is before a mirror does not depend on the mirrors that are left out. -/
theorem before_filter {p : Mirror → Bool} (hids : (ms.map (·.id)).Nodup) (hm : m ∈ ms) (hp : p m) :
    m.before (ms.filter p) = (m.before ms).filter p := by
  induction ms with
  | nil => simp at hm
  | cons x ms ih =>
    rw [List.map_cons, List.nodup_cons] at hids
    rcases List.mem_cons.1 hm with rfl | hm
    · rw [List.filter_cons_of_pos hp, before_cons_self, before_cons_self]
      rfl
    · have hx := id_ne_of_mem hids.1 hm
      rw [before_cons_of_ne hx]
      by_cases hpx : p x
      · rw [List.filter_cons_of_pos hpx, List.filter_cons_of_pos hpx, before_cons_of_ne hx,
          ih hids.2 hm]
      · rw [List.filter_cons_of_neg hpx, List.filter_cons_of_neg hpx, ih hids.2 hm]

/-- Of the mirrors that a test keeps, the one with a given id. -/
theorem filter_id {p : Mirror → Bool} (hids : (ms.map (·.id)).Nodup) (hm : m ∈ ms) :
    (ms.filter p).filter (·.id = m.id) = if p m then [m] else [] := by
  induction ms with
  | nil => simp at hm
  | cons x ms ih =>
    rw [List.map_cons, List.nodup_cons] at hids
    rcases List.mem_cons.1 hm with rfl | hm
    · have hnone : (ms.filter p).filter (·.id = m.id) = [] := by
        rw [List.filter_eq_nil_iff]
        intro y hy
        simpa using (id_ne_of_mem hids.1 (List.mem_filter.1 hy).1).symm
      by_cases hp : p m
      · simp [List.filter_cons_of_pos hp, hp, hnone]
      · simp [List.filter_cons_of_neg hp, hp, hnone]
    · have hx := id_ne_of_mem hids.1 hm
      by_cases hp : p x
      · simp [List.filter_cons_of_pos hp, hx, ih hids.2 hm]
      · simp [List.filter_cons_of_neg hp, ih hids.2 hm]

/-- The first mirror that passes a test is the one that passes it while none before it does. -/
theorem find?_eq_some {p : Mirror → Bool} (hids : (ms.map (·.id)).Nodup) :
    ms.find? p = some m ↔ m ∈ ms ∧ p m ∧ (m.before ms).any p = false := by
  induction ms with
  | nil => simp
  | cons x ms ih =>
    rw [List.map_cons, List.nodup_cons] at hids
    by_cases hp : p x
    · rw [List.find?_cons_of_pos hp]
      constructor
      · rintro ⟨⟩
        exact ⟨List.mem_cons_self, hp, by simp [before_cons_self]⟩
      · rintro ⟨hm, -, hb⟩
        rcases List.mem_cons.1 hm with rfl | hm
        · rfl
        · have hx := id_ne_of_mem hids.1 hm
          rw [before_cons_of_ne hx] at hb
          simp [hp] at hb
    · rw [List.find?_cons_of_neg hp, ih hids.2]
      constructor
      · rintro ⟨hm, hpm, hb⟩
        have hx := id_ne_of_mem hids.1 hm
        refine ⟨List.mem_cons_of_mem x hm, hpm, ?_⟩
        rw [before_cons_of_ne hx]
        simpa [hp] using hb
      · rintro ⟨hm, hpm, hb⟩
        rcases List.mem_cons.1 hm with rfl | hm
        · exact absurd hpm hp
        · have hx := id_ne_of_mem hids.1 hm
          rw [before_cons_of_ne hx] at hb
          exact ⟨hm, hpm, by simpa [hp] using hb⟩

theorem owner?_eq_some (hids : (ms.map (·.id)).Nodup) (hm : m ∈ ms) (key : Option V) :
    owner? like ms key = some m ↔ m.isUnfiltered = false ∧ m.owns like ms key = true := by
  have hws : ((ms.filter (!·.isUnfiltered)).map (·.id)).Nodup :=
    hids.sublist (List.filter_sublist.map _)
  rw [owner?, find?_eq_some hws, List.mem_filter]
  cases hu : m.isUnfiltered with
  | true => simp
  | false =>
    rw [before_filter (p := fun x => !x.isUnfiltered) hids hm (by simp [hu]), owns_eq hu]
    cases key with
    | none => simp
    | some k =>
      have hany := any_takes_filter like (m.before ms) k
      simp only [Option.any_some, hany, hm]
      simp

end Mirror

/-! ## Conditions -/

namespace Plan

variable {like} [DecidableEq V] {s : Scope V} {m : Mirror}

theorem truth_keyCondition (h : m.isUnfiltered = false) (row : Option RowImage) :
    (keyCondition m row).truth like s = (s.cell ⟨row, m.keyColumn⟩).map (m.takes like) :=
  Condition.truth_likes like s (Mirror.whitelist_ne_nil h)

/-- The condition of a whitelisted mirror behind others of its source. -/
theorem truth_claimCondition {es : List Mirror} {row : Option RowImage} {c : Condition}
    (hes : ∀ e ∈ es, e.isUnfiltered = false ∧ e.keyColumn = m.keyColumn)
    (hc : claimCondition m es row = some c) :
    c.truth like s = (s.cell ⟨row, m.keyColumn⟩).map fun k =>
      m.takes like k && !es.any (·.takes like k) := by
  unfold claimCondition at hc
  split at hc
  · cases hc
  · rename_i hm
    have hown : (keyCondition m row).truth like s = (s.cell ⟨row, m.keyColumn⟩).map (m.takes like) :=
      truth_keyCondition (by simpa using hm) row
    cases es with
    | nil =>
      cases hc
      simp [hown]
    | cons e es =>
      cases hc
      have hearlier : (Condition.any ((e :: es).map (keyCondition · row))).truth like s =
          (s.cell ⟨row, m.keyColumn⟩).map fun k => (e :: es).any (·.takes like k) := by
        apply Condition.truth_any_map like s (List.cons_ne_nil e es)
        intro x hx
        obtain ⟨hx₁, hx₂⟩ := hes x hx
        rw [truth_keyCondition hx₁, hx₂]
      rw [Condition.truth, Condition.truth, Condition.truth, Condition.truth, hown, hearlier]
      cases s.cell ⟨row, m.keyColumn⟩ <;> simp

/-- The whitelisted mirrors before a mirror. -/
def claimsBefore (ms : List Mirror) (m : Mirror) : List Mirror :=
  (m.before ms).filter (!·.isUnfiltered)

variable {ms : List Mirror}

/-- The condition of a mirror on the key of a row holds if the mirror owns the key. -/
theorem holds_claimCondition {row : Option RowImage} {c : Condition}
    (hkey : ∀ x ∈ ms, x.keyColumn = m.keyColumn)
    (hc : claimCondition m (claimsBefore ms m) row = some c) :
    c.holds like s = m.owns like ms (s.cell ⟨row, m.keyColumn⟩) := by
  have hm : m.isUnfiltered = false := by
    rw [← Bool.not_eq_true]
    intro hm
    simp [claimCondition, hm] at hc
  have hbefore : ∀ e ∈ claimsBefore ms m, e.isUnfiltered = false ∧ e.keyColumn = m.keyColumn := by
    intro e he
    obtain ⟨he, heu⟩ := List.mem_filter.1 he
    exact ⟨by simpa using heu, hkey e (Mirror.before_subset he)⟩
  rw [Condition.holds, truth_claimCondition hbefore hc, Mirror.owns_eq hm]
  cases s.cell ⟨row, m.keyColumn⟩ with
  | none => rfl
  | some k =>
    have hany := Mirror.any_takes_filter like (m.before ms) k
    simp only [Option.map_some, Option.any_some, claimsBefore, hany, Option.some.injEq,
      Bool.decide_eq_true]

/-- A whitelisted mirror has such a condition. -/
theorem claimCondition_eq_some (hm : m.isUnfiltered = false) (es : List Mirror)
    (row : Option RowImage) : ∃ c, claimCondition m es row = some c := by
  unfold claimCondition
  rw [if_neg (by simp [hm])]
  split
  · exact ⟨_, rfl⟩
  · exact ⟨_, rfl⟩

/-! ## Trigger bodies -/

@[simp] theorem writeAction_table (m : Mirror) (e : Event) : (writeAction m e).table = m.id := by
  cases e <;> rfl

@[simp] theorem evictAction_table (m : Mirror) (es : List Mirror) :
    (evictAction m es).table = m.id := rfl

/-- Each mirror of a chain is evicted from behind those before it. -/
theorem evictions_eq (hids : (ms.map (·.id)).Nodup) (es : List Mirror) :
    evictions es ms = ms.map fun m => evictAction m (es ++ m.before ms) := by
  induction ms generalizing es with
  | nil => rfl
  | cons x ms ih =>
    rw [List.map_cons, List.nodup_cons] at hids
    rw [evictions, ih hids.2, List.map_cons, Mirror.before_cons_self, List.append_nil]
    congr 1
    apply List.map_congr_left
    intro m hm
    rw [Mirror.before_cons_of_ne (Mirror.id_ne_of_mem hids.1 hm), List.append_assoc]
    rfl

/-- A mirror is evicted from its own table. -/
theorem table_of_mem_evictions {es : List Mirror} {a : RowAction} (ha : a ∈ evictions es ms) :
    ∃ m ∈ ms, a.table = m.id := by
  induction ms generalizing es with
  | nil => cases ha
  | cons m ms ih =>
    rcases List.mem_cons.1 ha with rfl | ha
    · exact ⟨m, List.mem_cons_self, rfl⟩
    · obtain ⟨x, hx, htable⟩ := ih ha
      exact ⟨x, List.mem_cons_of_mem m hx, htable⟩

/-- Of actions that each concern one of some mirrors, the one that concerns a given mirror. -/
theorem actionsOn_map {p : Mirror → Bool} {f : Mirror → RowAction} (hids : (ms.map (·.id)).Nodup)
    (hm : m ∈ ms) (hf : ∀ x, (f x).table = x.id) :
    actionsOn m.id ((ms.filter p).map f) = if p m then [f m] else [] := by
  have htable : ((ms.filter p).map f).filter (·.table = m.id) =
      ((ms.filter p).filter (·.id = m.id)).map f := by
    rw [List.filter_map]
    congr 2
    funext x
    simp [hf]
  rw [actionsOn, htable, Mirror.filter_id hids hm]
  by_cases hp : p m <;> simp [hp]

/-- The branch of a trigger's choice that is entered is that of the first mirror taking the key. -/
theorem action?_choose (e : Event) (hkey : ∀ x ∈ ms, x.keyColumn = m.keyColumn) :
    (BodyPart.choose ((ms.filter (!·.isUnfiltered)).map fun x =>
        (keyCondition x (some (decidingRow e)), writeAction x e))).action? like s =
      (Mirror.owner? like ms (s.cell ⟨some (decidingRow e), m.keyColumn⟩)).map (writeAction · e) := by
  rw [BodyPart.action?, List.find?_map, Option.map_map]
  congr 1
  apply List.find?_congr
  intro x hx
  obtain ⟨hx, hxw⟩ := List.mem_filter.1 hx
  have hxw : x.isUnfiltered = false := by simpa using hxw
  show (keyCondition x _).holds like s = _
  rw [Condition.holds, truth_keyCondition hxw, hkey x hx]
  cases s.cell ⟨some (decidingRow e), m.keyColumn⟩ <;> simp

theorem bodyActions_triggerBody (e : Event) (hkey : ∀ x ∈ ms, x.keyColumn = m.keyColumn) :
    bodyActions like s (triggerBody e ms) =
      ((Mirror.owner? like ms (s.cell ⟨some (decidingRow e), m.keyColumn⟩)).map
        (writeAction · e)).toList ++
      ((if e = .update then evictions [] (ms.filter (!·.isUnfiltered)) else []) ++
        (ms.filter (·.isUnfiltered)).map (writeAction · e)) := by
  have hrun : ∀ as : List RowAction, (as.map BodyPart.run).filterMap (·.action? like s) = as := by
    intro as
    rw [List.filterMap_map]
    exact List.filterMap_some
  unfold bodyActions triggerBody
  rw [List.filterMap_cons, action?_choose e hkey, hrun]
  cases Mirror.owner? like ms (s.cell ⟨some (decidingRow e), m.keyColumn⟩) <;> rfl

omit [DecidableEq V] in
/-- The branch that is entered is on the owner's table. -/
theorem actionsOn_owner? (e : Event) (hids : (ms.map (·.id)).Nodup) (hm : m ∈ ms) (key : Option V) :
    actionsOn m.id ((Mirror.owner? like ms key).map (writeAction · e)).toList =
      if m.isUnfiltered = false ∧ m.owns like ms key = true then [writeAction m e] else [] := by
  have howner : Mirror.owner? like ms key = some m ↔
      m.isUnfiltered = false ∧ m.owns like ms key = true := Mirror.owner?_eq_some hids hm key
  by_cases how : m.isUnfiltered = false ∧ m.owns like ms key = true
  · rw [howner.2 how, if_pos how]
    simp [actionsOn]
  · rw [if_neg how]
    cases hx : Mirror.owner? like ms key with
    | none => rfl
    | some x =>
      have hxm : x ∈ ms := (List.mem_filter.1 (List.mem_of_find?_eq_some hx)).1
      have hne : x.id ≠ m.id := by
        intro hid
        obtain rfl := List.inj_on_of_nodup_map hids hxm hm hid
        exact how (howner.1 hx)
      simp [actionsOn, hne]

/-- A mirror of some keys is evicted once, after an update. -/
theorem actionsOn_evictions (e : Event) (hids : (ms.map (·.id)).Nodup) (hm : m ∈ ms) :
    actionsOn m.id (if e = .update then evictions [] (ms.filter (!·.isUnfiltered)) else []) =
      if e = .update ∧ m.isUnfiltered = false then [evictAction m (claimsBefore ms m)] else [] := by
  have hws : ((ms.filter (!·.isUnfiltered)).map (·.id)).Nodup :=
    hids.sublist (List.filter_sublist.map _)
  by_cases he : e = .update
  · rw [if_pos he, evictions_eq hws, actionsOn_map hids hm fun x => rfl]
    cases hu : m.isUnfiltered with
    | true => simp
    | false =>
      rw [Mirror.before_filter (p := fun x => !x.isUnfiltered) hids hm (by simp [hu])]
      simp [claimsBefore, he]
  · simp [he, actionsOn]

/-- What a trigger does to a mirror. -/
def mirrorActions (like : V → Text → Bool) (ms : List Mirror) (m : Mirror) (e : Event)
    (s : Scope V) : List RowAction :=
  (if m.owns like ms (s.cell ⟨some (decidingRow e), m.keyColumn⟩) then [writeAction m e] else [])
    ++ if e = .update ∧ m.isUnfiltered = false then [evictAction m (claimsBefore ms m)] else []

theorem actionsOn_bodyActions (e : Event) (hids : (ms.map (·.id)).Nodup)
    (hkey : ∀ x ∈ ms, x.keyColumn = m.keyColumn) (hm : m ∈ ms) :
    actionsOn m.id (bodyActions like s (triggerBody e ms)) = mirrorActions like ms m e s := by
  rw [bodyActions_triggerBody e hkey, actionsOn_append, actionsOn_append, actionsOn_owner? e hids hm,
    actionsOn_evictions e hids hm, actionsOn_map hids hm fun x => writeAction_table x e, mirrorActions]
  cases hu : m.isUnfiltered with
  | true => simp [Mirror.owns_of_isUnfiltered hu]
  | false => simp

/-- A trigger leaves all but the mirrors of its source alone. -/
theorem table_of_mem_bodyActions {e : Event} {a : RowAction}
    (hkey : ∀ x ∈ ms, x.keyColumn = m.keyColumn)
    (ha : a ∈ bodyActions like s (triggerBody e ms)) : ∃ x ∈ ms, a.table = x.id := by
  rw [bodyActions_triggerBody e hkey, List.mem_append, List.mem_append] at ha
  rcases ha with ha | ha | ha
  · obtain ⟨x, hx, rfl⟩ := Option.map_eq_some_iff.1 (Option.mem_toList.1 ha)
    exact ⟨x, (List.mem_filter.1 (List.mem_of_find?_eq_some hx)).1, writeAction_table x e⟩
  · split at ha
    · obtain ⟨x, hx, htable⟩ := table_of_mem_evictions ha
      exact ⟨x, (List.mem_filter.1 hx).1, htable⟩
    · cases ha
  · obtain ⟨x, hx, rfl⟩ := List.mem_map.1 ha
    exact ⟨x, (List.mem_filter.1 hx).1, writeAction_table x e⟩

end Plan

end TypedMirror
