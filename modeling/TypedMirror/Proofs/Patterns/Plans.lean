import TypedMirror.Proofs.Outcome
import TypedMirror.Proofs.Ownership
import TypedMirror.Proofs.Patterns.Statements

/-!
# Patterns in a plan

A plan holds the patterns of its mirrors, statement by statement, and is otherwise made without
looking at them.

* `Plan.map` — what is computed from each statement of a plan;
* `Plan.map_erase` — the plan of mirrors with empty patterns;
* `Plan.map_patterns` — the patterns in a plan, from the mirrors alone.
-/

namespace TypedMirror

open Sql

/-! ## From statement to statement -/

section Maps

variable {σ τ υ : Type}

def MirrorPlan.map (f : σ → τ) (p : MirrorPlan σ) : MirrorPlan τ :=
  ⟨p.mirror, p.table, p.drops.map f, f p.create, f p.backfill⟩

def TriggerPlan.map (f : σ → τ) (p : TriggerPlan σ) : TriggerPlan τ :=
  ⟨p.name, p.source, p.event, f p.drop, f p.create⟩

def Plan.map (f : σ → τ) (p : Plan σ) : Plan τ :=
  ⟨p.mirrors.map (MirrorPlan.map f), p.triggers.map (TriggerPlan.map f)⟩

theorem MirrorPlan.mapM_statements {f : σ → Except MirrorError τ} {g : σ → τ} {p : MirrorPlan σ}
    (h : ∀ s ∈ p.statements, f s = .ok (g s)) : p.mapM f = .ok (p.map g) := by
  obtain ⟨hdrops, hothers⟩ := List.forall_mem_append.1 h
  obtain ⟨hcreate, hbackfill⟩ := List.forall_mem_cons.1 hothers
  unfold mapM
  rw [mapM_eq_ok hdrops, hcreate, hbackfill p.backfill List.mem_cons_self]
  rfl

theorem TriggerPlan.mapM_statements {f : σ → Except MirrorError τ} {g : σ → τ} {p : TriggerPlan σ}
    (h : ∀ s ∈ p.statements, f s = .ok (g s)) : p.mapM f = .ok (p.map g) := by
  obtain ⟨hdrop, hcreate⟩ := List.forall_mem_cons.1 h
  unfold mapM
  rw [hdrop, hcreate p.create List.mem_cons_self]
  rfl

namespace Plan

/-- If each statement of a plan can be rewritten, so can the plan. -/
theorem mapM_statements {f : σ → Except MirrorError τ} {g : σ → τ} {p : Plan σ}
    (h : ∀ s ∈ p.statements, f s = .ok (g s)) : p.mapM f = .ok (p.map g) := by
  obtain ⟨hmirrors, htriggers⟩ := List.forall_mem_append.1 h
  rw [List.forall_mem_flatMap] at hmirrors htriggers
  unfold mapM
  rw [mapM_eq_ok fun m hm => MirrorPlan.mapM_statements (hmirrors m hm),
    mapM_eq_ok fun t ht => TriggerPlan.mapM_statements (htriggers t ht)]
  rfl

theorem map_map (f : σ → τ) (g : τ → υ) (p : Plan σ) :
    (p.map f).map g = p.map fun s => g (f s) := by
  simp [map, MirrorPlan.map, TriggerPlan.map, Function.comp_def]

theorem statements_map (f : σ → τ) (p : Plan σ) : (p.map f).statements = p.statements.map f := by
  simp [map, MirrorPlan.map, TriggerPlan.map, statements, MirrorPlan.statements,
    TriggerPlan.statements, List.flatMap_map, List.map_flatMap]

theorem map_congr {f g : σ → τ} {p : Plan σ} (h : ∀ s ∈ p.statements, f s = g s) :
    p.map f = p.map g := by
  have hf : p.mapM (fun s => .ok (f s)) = .ok (p.map f) := mapM_statements fun _ _ => rfl
  have hg : p.mapM (fun s => .ok (f s)) = .ok (p.map g) := mapM_statements fun s hs =>
    congrArg Except.ok (h s hs)
  exact Except.ok.inj (hf.symm.trans hg)

end Plan

end Maps

/-! ## Empty patterns -/

/-- The mirror with empty patterns. -/
def Mirror.erase (m : Mirror) : Mirror := { m with whitelist := m.whitelist.map fun _ => [] }

/-- The registry with empty patterns. -/
def Registry.erase (r : Registry) : Registry := { r with mirrors := r.mirrors.map Mirror.erase }

@[simp] theorem Mirror.isUnfiltered_erase (m : Mirror) : m.erase.isUnfiltered = m.isUnfiltered :=
  List.isEmpty_map

theorem Registry.sourceTables_erase (r : Registry) : r.erase.sourceTables = r.sourceTables := by
  unfold sourceTables sourcesOf erase
  rw [List.foldl_map]
  rfl

theorem Registry.mirrorsFor_erase (r : Registry) (source : Text) :
    r.erase.mirrorsFor source = (r.mirrorsFor source).map Mirror.erase :=
  List.filter_map

namespace Plan

variable (m : Mirror) (ms es : List Mirror)

theorem erase_any (cs : List Condition) : (Condition.any cs).erase = .any (cs.map .erase) := by
  induction cs with
  | nil => rfl
  | cons c cs ih =>
    cases cs with
    | nil => rfl
    | cons d ds => exact congrArg (Condition.or c.erase) ih

theorem erase_keyCondition (row : Option RowImage) :
    (keyCondition m row).erase = keyCondition m.erase row := by
  unfold keyCondition Mirror.erase
  rw [erase_any, List.map_map, List.map_map]
  rfl

theorem erase_claimCondition (row : Option RowImage) :
    (claimCondition m es row).map .erase = claimCondition m.erase (es.map .erase) row := by
  unfold claimCondition
  rw [Mirror.isUnfiltered_erase]
  split
  · rfl
  cases es with
  | nil => exact congrArg some (erase_keyCondition m row)
  | cons e es =>
    have hearlier : (Condition.any ((e :: es).map (keyCondition · row))).erase =
        .any (((e :: es).map .erase).map (keyCondition · row)) := by
      rw [erase_any, List.map_map, List.map_map]
      congr 2
      funext x
      exact erase_keyCondition x row
    simp only [Option.map_some, Condition.erase, erase_keyCondition, hearlier]
    rfl

theorem erase_writeAction (e : Event) : (writeAction m e).erase = writeAction m.erase e := by
  cases e <;> rfl

theorem erase_evictAction : (evictAction m es).erase = evictAction m.erase (es.map .erase) := by
  have hclaim : ((claimCondition m es (some .new)).getD .always).erase =
      (claimCondition m.erase (es.map .erase) (some .new)).getD .always := by
    rw [← erase_claimCondition]
    exact (Option.getD_map Condition.erase .always _).symm
  unfold evictAction
  simp only [RowAction.erase, Condition.erase, hclaim]
  rfl

theorem erase_evictions :
    (evictions es ms).map .erase = evictions (es.map .erase) (ms.map .erase) := by
  induction ms generalizing es with
  | nil => rfl
  | cons m ms ih =>
    simp only [evictions, List.map_cons, ih, erase_evictAction, List.map_append, List.map_nil]

theorem filter_erase {p : Mirror → Bool} (hp : ∀ m : Mirror, p m.erase = p m) :
    (ms.map .erase).filter p = (ms.filter p).map .erase := by
  rw [List.filter_map]
  exact congrArg (List.map _) (congrArg (List.filter · ms) (funext hp))

theorem filter_whitelisted : (ms.map Mirror.erase).filter (!·.isUnfiltered) =
    (ms.filter (!·.isUnfiltered)).map Mirror.erase :=
  filter_erase ms fun m => congrArg (!·) m.isUnfiltered_erase

theorem erase_triggerBody (e : Event) :
    (triggerBody e ms).map .erase = triggerBody e (ms.map .erase) := by
  have hwrites : ∀ xs : List Mirror, (xs.map (writeAction · e)).map .erase =
      (xs.map .erase).map (writeAction · e) := by
    intro xs
    rw [List.map_map, List.map_map]
    exact List.map_congr_left fun m _ => erase_writeAction m e
  have hruns : ∀ as : List RowAction, (as.map BodyPart.run).map BodyPart.erase =
      (as.map RowAction.erase).map .run := by
    intro as
    rw [List.map_map, List.map_map]
    rfl
  unfold triggerBody
  rw [filter_whitelisted, filter_erase ms Mirror.isUnfiltered_erase, List.map_cons, hruns,
    List.map_append, hwrites]
  congr 2
  · rw [BodyPart.erase, List.map_map, List.map_map]
    refine congrArg _ (List.map_congr_left fun m _ => ?_)
    exact Prod.ext (erase_keyCondition m _) (erase_writeAction m e)
  · split
    · rw [erase_evictions]
      rfl
    · rfl

theorem erase_earlierClaims (r : Registry) :
    (earlierClaims r m).map .erase = earlierClaims r.erase m.erase := by
  unfold earlierClaims
  rw [show m.erase.source = m.source from rfl, Registry.mirrorsFor_erase, List.takeWhile_map,
    filter_whitelisted]
  rfl

theorem erase_mirrorPlan : (mirrorPlan m es).map .erase = mirrorPlan m.erase (es.map .erase) := by
  unfold mirrorPlan
  rw [← erase_claimCondition]
  rfl

theorem erase_triggerPlan (source : Text) (e : Event) :
    (triggerPlan source ms e).map .erase = triggerPlan source (ms.map .erase) e := by
  unfold triggerPlan
  rw [← erase_triggerBody]
  rfl

/-- A plan is made without looking at what the patterns say. -/
theorem map_erase (r : Registry) : (ofRegistry r).map .erase = ofRegistry r.erase := by
  unfold ofRegistry map
  rw [Registry.sourceTables_erase]
  congr 1
  · rw [List.map_map, Registry.erase, List.map_map]
    refine List.map_congr_left fun m _ => ?_
    exact (erase_mirrorPlan m _).trans (congrArg _ (erase_earlierClaims m r))
  · rw [List.map_flatMap]
    refine List.flatMap_congr fun source _ => ?_
    rw [List.map_map, Registry.mirrorsFor_erase]
    exact List.map_congr_left fun e _ => erase_triggerPlan _ source e

end Plan

/-! ## Patterns -/

/-- The patterns that tell which keys a mirror owns: its own, then those of each mirror of its
source before it.  A mirror of every key has none. -/
def Mirror.claimPatterns (ms : List Mirror) (m : Mirror) : List Text :=
  if m.isUnfiltered then []
  else m.whitelist ++ ((m.before ms).filter (·.source == m.source)).flatMap (·.whitelist)

namespace Plan

/-- The patterns in a trigger: those of each mirror's branch, and after an update those that tell
for each mirror which keys it owns. -/
def triggerPatterns (mirrors : List Mirror) (e : Event) : List Text :=
  mirrors.flatMap (·.whitelist) ++
    if e = .update then mirrors.flatMap (Mirror.claimPatterns mirrors) else []

/-- The patterns in the plan of a registry. -/
def patternsOf (r : Registry) : Plan (List Text) where
  mirrors := r.mirrors.map fun m =>
    ⟨m.id, m.id, [[], [], [], []], [], m.claimPatterns r.mirrors⟩
  triggers := r.sourceTables.flatMap fun source => Event.all.map fun e =>
    ⟨triggerName e source, source, e, [], triggerPatterns (r.mirrorsFor source) e⟩

variable {m : Mirror} {ms es : List Mirror}

/-- What mirrors of every key add to the patterns makes no difference. -/
theorem flatMap_whitelisted {f : Mirror → List Text}
    (hf : ∀ m : Mirror, m.isUnfiltered = true → f m = []) (ms : List Mirror) :
    (ms.filter (!·.isUnfiltered)).flatMap f = ms.flatMap f := by
  induction ms with
  | nil => rfl
  | cons m ms ih =>
    cases h : m.isUnfiltered with
    | true => simp [h, hf m h, ih]
    | false => simp [h, ih]

theorem whitelist_of_isUnfiltered (m : Mirror) (h : m.isUnfiltered = true) : m.whitelist = [] :=
  List.isEmpty_iff.1 h

theorem patterns_keyCondition (m : Mirror) (row : Option RowImage) :
    (keyCondition m row).patterns = m.whitelist := by
  rw [keyCondition, Condition.patterns_any, List.flatMap_map]
  exact List.flatMap_singleton' m.whitelist

theorem patterns_claimCondition (m : Mirror) (es : List Mirror) (row : Option RowImage) :
    ((claimCondition m es row).getD .always).patterns =
      if m.isUnfiltered then [] else m.whitelist ++ es.flatMap (·.whitelist) := by
  unfold claimCondition
  split
  · rfl
  cases es with
  | nil => simp [patterns_keyCondition]
  | cons e es =>
    have hearlier : (Condition.any ((e :: es).map (keyCondition · row))).patterns =
        (e :: es).flatMap (·.whitelist) := by
      rw [Condition.patterns_any, List.flatMap_map]
      exact List.flatMap_congr fun x _ => patterns_keyCondition x row
    simp only [Option.getD_some, Condition.patterns, patterns_keyCondition, hearlier]

theorem patterns_evictAction (m : Mirror) (es : List Mirror) : (evictAction m es).patterns =
    if m.isUnfiltered then [] else m.whitelist ++ es.flatMap (·.whitelist) :=
  patterns_claimCondition m es (some .new)

theorem patterns_writeAction (m : Mirror) (e : Event) : (writeAction m e).patterns = [] := by
  cases e <;> rfl

/-- What is before a mirror among those of its source, and has patterns. -/
theorem claimPatterns_eq (hids : (ms.map (·.id)).Nodup) (hm : m ∈ ms) :
    m.claimPatterns ms = if m.isUnfiltered then [] else m.whitelist ++
      (claimsBefore (ms.filter (·.source == m.source)) m).flatMap (·.whitelist) := by
  unfold Mirror.claimPatterns claimsBefore
  rw [flatMap_whitelisted whitelist_of_isUnfiltered,
    Mirror.before_filter (p := (·.source == m.source)) hids hm (by simp)]

theorem patterns_evictions (hids : (ms.map (·.id)).Nodup)
    (hsource : ∀ x ∈ ms, ∀ y ∈ ms, x.source = y.source) :
    (evictions [] (ms.filter (!·.isUnfiltered))).flatMap RowAction.patterns =
      ms.flatMap (Mirror.claimPatterns ms) := by
  have hws : ((ms.filter (!·.isUnfiltered)).map (·.id)).Nodup :=
    hids.sublist (List.filter_sublist.map _)
  rw [← flatMap_whitelisted (f := Mirror.claimPatterns ms), evictions_eq hws, List.flatMap_map]
  · refine List.flatMap_congr fun m hm => ?_
    obtain ⟨hm, hun⟩ := List.mem_filter.1 hm
    have hsame : ms.filter (·.source == m.source) = ms := by
      rw [List.filter_eq_self]
      exact fun x hx => by simp [hsource x hx m hm]
    rw [patterns_evictAction, claimPatterns_eq hids hm, hsame, claimsBefore,
      Mirror.before_filter (p := fun x => !x.isUnfiltered) hids hm hun]
    rfl
  · intro m hm
    simp [Mirror.claimPatterns, hm]

theorem patterns_triggerBody (hids : (ms.map (·.id)).Nodup)
    (hsource : ∀ x ∈ ms, ∀ y ∈ ms, x.source = y.source) (e : Event) :
    (triggerBody e ms).flatMap BodyPart.patterns = triggerPatterns ms e := by
  have hbranches : (BodyPart.choose ((ms.filter (!·.isUnfiltered)).map fun m =>
      (keyCondition m (some (decidingRow e)), writeAction m e))).patterns =
        ms.flatMap (·.whitelist) := by
    rw [BodyPart.patterns, List.flatMap_map, ← flatMap_whitelisted whitelist_of_isUnfiltered]
    refine List.flatMap_congr fun m _ => ?_
    rw [patterns_keyCondition, patterns_writeAction, List.append_nil]
  have hruns : ∀ as : List RowAction, (as.map BodyPart.run).flatMap BodyPart.patterns =
      as.flatMap RowAction.patterns := fun as => List.flatMap_map ..
  have hwrites : ((ms.filter (·.isUnfiltered)).map (writeAction · e)).flatMap RowAction.patterns =
      [] := by
    rw [List.flatMap_map, List.flatMap_eq_nil_iff]
    exact fun m _ => patterns_writeAction m e
  unfold triggerBody triggerPatterns
  rw [List.flatMap_cons, hbranches, hruns, List.flatMap_append, hwrites, List.append_nil]
  split
  · rw [patterns_evictions hids hsource]
  · rfl

theorem patterns_backfill {r : Registry} (hids : (r.mirrors.map (·.id)).Nodup)
    (hm : m ∈ r.mirrors) : (mirrorPlan m (earlierClaims r m)).backfill.patterns =
      m.claimPatterns r.mirrors := by
  show ((claimCondition m (earlierClaims r m) none).map Condition.patterns).getD [] = _
  rw [show ([] : List Text) = Condition.always.patterns from rfl, Option.getD_map,
    patterns_claimCondition, claimPatterns_eq hids hm]
  rfl

/-- The patterns in a plan, statement by statement. -/
theorem map_patterns {r : Registry} (hids : (r.mirrors.map (·.id)).Nodup) :
    (ofRegistry r).map Statement.patterns = patternsOf r := by
  unfold ofRegistry patternsOf map
  congr 1
  · rw [List.map_map]
    refine List.map_congr_left fun m hm => ?_
    exact congrArg (MirrorPlan.mk _ _ _ _) (patterns_backfill hids hm)
  · rw [List.map_flatMap]
    refine List.flatMap_congr fun source _ => ?_
    rw [List.map_map]
    refine List.map_congr_left fun e _ => ?_
    have hsource : ∀ x ∈ r.mirrorsFor source, x.source = source := fun x hx =>
      eq_of_beq (List.mem_filter.1 hx).2
    have hbody := patterns_triggerBody (hids.sublist (List.filter_sublist.map _))
      (fun x hx y hy => (hsource x hx).trans (hsource y hy).symm) e
    exact congrArg (TriggerPlan.mk _ _ _ _) hbody

end Plan

end TypedMirror
