import TypedMirror.Proofs.Sessions

/-!
# Sessions as ordered maps

A session keeps its mirrors in a list and, beside it, an index of their positions.  What a host sees
of it is a map from ids to mirrors in the order of registration, which grows while the window is
open, and which afterwards can only be emptied.

* `Session.Change` — each step on the list alone;
* `Session.Takes.change` — a session acts as that, with the index;
* `Session.Keeps` — mirrors keep everything but a whitelist that grows;
* `Session.getElem?_afterAll` — of several sessions under one window each sees its own steps, and
  every closing;
* `Session.ordered_map_with_window` — all of it, for each of these sessions.
-/

namespace TypedMirror

namespace Session

variable {σ σ' : Session} {step : Step} {answer : Answer} {ms ms' : List Mirror} {c : Catalog}
  {isOpen inSetup : Bool}

/-! ## One step on the list -/

/-- What a step does to an ordered list of mirrors with distinct ids, and what it answers. -/
inductive Change (c : Catalog) (isOpen inSetup : Bool) (ms : List Mirror) :
    Step → Answer → List Mirror → Prop
  | register {source type : Text} {args : List Text} {m : Mirror} (ho : isOpen) (hp : inSetup)
    (hread : Mirror.read c source type args = .ok m) (hnew : m.id ∉ ms.map (·.id)) :
    Change c isOpen inSetup ms (.register source type args) (.id m.id) (ms ++ [m])
  | add {m : Mirror} (ho : isOpen) (hp : inSetup) (hnew : m.id ∉ ms.map (·.id)) :
    Change c isOpen inSetup ms (.add m) (.id m.id) (ms ++ [m])
  | addKey {before after : List Mirror} {m : Mirror} {pattern : Text} (ho : isOpen) (hp : inSetup)
    (hms : ms = before ++ m :: after) (hpattern : Text.trim pattern ≠ []) :
    Change c isOpen inSetup ms (.addKey m.id pattern) .done
      (before ++ { m with whitelist := m.whitelist ++ [pattern] } :: after)
  | closed {step : Step} {p : SetupStep} (ho : isOpen = false) (hp : inSetup)
    (hstep : step.setup? = some p) :
    Change c isOpen inSetup ms step (.refused (.lifecycleViolation p)) ms
  | unread {source type : Text} {args : List Text} {e : MirrorError} (ho : isOpen) (hp : inSetup)
    (hread : Mirror.read c source type args = .error e) :
    Change c isOpen inSetup ms (.register source type args) (.refused e) ms
  | registeredTwice {source type : Text} {args : List Text} {m : Mirror} (ho : isOpen)
    (hp : inSetup) (hread : Mirror.read c source type args = .ok m) (hold : m.id ∈ ms.map (·.id)) :
    Change c isOpen inSetup ms (.register source type args) (.refused (.duplicateMirror m.id)) ms
  | addedTwice {m : Mirror} (ho : isOpen) (hp : inSetup) (hold : m.id ∈ ms.map (·.id)) :
    Change c isOpen inSetup ms (.add m) (.refused (.duplicateMirror m.id)) ms
  | unknown {id pattern : Text} (ho : isOpen) (hp : inSetup) (hid : id ∉ ms.map (·.id)) :
    Change c isOpen inSetup ms (.addKey id pattern) (.refused (.unknownMirror id)) ms
  | blankKey {id pattern : Text} (ho : isOpen) (hp : inSetup) (hid : id ∈ ms.map (·.id))
    (hblank : Text.trim pattern = []) :
    Change c isOpen inSetup ms (.addKey id pattern) (.refused (.emptyKeyPattern id)) ms
  | reset (hp : inSetup) : Change c isOpen inSetup ms .reset .done []
  | finalize (hp : inSetup) : Change c isOpen inSetup ms .finalize .done ms
  | close : Change c isOpen inSetup ms .close .done ms
  | lookup {id : Text} :
    Change c isOpen inSetup ms (.lookup id) (.mirror (ms.find? (·.id == id))) ms
  | sourceTables (hp : inSetup = false) :
    Change c isOpen inSetup ms .sourceTables (.names (Registry.sourcesOf ms)) ms
  | mirrorsFor {source : Text} (hp : inSetup = false) :
    Change c isOpen inSetup ms (.mirrorsFor source)
      (.names ((ms.filter (·.source == source)).map (·.id))) ms
  | wrongPhase {step : Step} (hstep : step.inSetup? = some !inSetup) :
    Change c isOpen inSetup ms step .wrongPhase ms

/-- The mirror that the index leads to is the one with the id. -/
theorem entry?_eq_find? {index : Index} (h : index.Agrees ms) (id : Text) :
    (index.entry? ms id).map (·.2) = ms.find? (·.id == id) := by
  symm
  cases he : index.entry? ms id with
  | none =>
    rw [Option.map_none, List.find?_eq_none]
    intro m hm hid
    exact h.entry?_eq_none.1 he (eq_of_beq hid ▸ List.mem_map_of_mem hm)
  | some p =>
    obtain ⟨hi, rfl⟩ := h.entry?_iff.1 he
    have hp := List.mem_of_getElem? hi
    cases hf : ms.find? (·.id == p.2.id) with
    | none =>
      have hnone := List.find?_eq_none.1 hf p.2 hp
      simp at hnone
    | some m =>
      have hid : m.id = p.2.id := by simpa using List.find?_some hf
      rw [List.inj_on_of_nodup_map h.nodup_ids (List.mem_of_find?_eq_some hf) hp hid]
      rfl

theorem exists_set_eq {i : Nat} {m : Mirror} (h : ms[i]? = some m) (m' : Mirror) :
    ∃ before after, ms = before ++ m :: after ∧ ms.set i m' = before ++ m' :: after := by
  obtain ⟨hi, rfl⟩ := List.getElem?_eq_some_iff.1 h
  refine ⟨ms.take i, ms.drop (i + 1), ?_, ?_⟩
  · rw [← List.drop_eq_getElem_cons hi, List.take_append_drop]
  · rw [List.set_eq_take_append_cons_drop, if_pos hi]

theorem Takes.change (h : Takes σ step σ' answer) (hσ : σ.Agrees) :
    Change σ.catalog σ.isOpen σ.inSetup σ.mirrors step answer σ'.mirrors := by
  have hopen : ∀ {s : Setup}, s.window = .isOpen → (Session.setup s).isOpen = true := by
    intro s hw
    simp [Session.isOpen, hw]
  cases h with
  | register hw hread ha =>
    obtain ⟨hnew, rfl⟩ := Setup.add_eq_ok ha
    exact .register (hopen hw) rfl hread (hσ.lookup_eq_none.1 hnew)
  | add hw ha =>
    obtain ⟨hnew, rfl⟩ := Setup.add_eq_ok ha
    exact .add (hopen hw) rfl (hσ.lookup_eq_none.1 hnew)
  | @addKey s _ id pattern hw hk =>
    obtain ⟨i, m, m', he, hm, rfl⟩ := Setup.addKey_eq_ok hk
    obtain ⟨hget, rfl⟩ := hσ.entry?_iff.1 he
    obtain ⟨before, after, hms, hset⟩ := exists_set_eq hget m'
    show Change _ _ _ _ _ _ (Session.setup s |>.mirrors.set i m')
    rw [hset, Mirror.addKey_eq_ok hm]
    exact .addKey (hopen hw) rfl hms (Mirror.trim_ne_nil_of_addKey hm)
  | refused he =>
    cases he with
    | closed hw hp => exact .closed (by simp [Session.isOpen, hw]) rfl hp
    | unread hw hread => exact .unread (hopen hw) rfl hread
    | registeredTwice hw hread hi =>
      exact .registeredTwice (hopen hw) rfl hread (hσ.mem_ids_of_lookup hi)
    | addedTwice hw hi => exact .addedTwice (hopen hw) rfl (hσ.mem_ids_of_lookup hi)
    | unknown hw he => exact .unknown (hopen hw) rfl (hσ.entry?_eq_none.1 he)
    | blankKey hw he hblank =>
      obtain ⟨hget, rfl⟩ := hσ.entry?_iff.1 he
      exact .blankKey (hopen hw) rfl (List.mem_map_of_mem (List.mem_of_getElem? hget)) hblank
  | reset => exact .reset rfl
  | finalize => exact .finalize rfl
  | closeSetup => exact .close
  | closeCommitted => exact .close
  | lookup =>
    rw [entry?_eq_find? hσ]
    exact .lookup
  | sourceTables => exact .sourceTables rfl
  | mirrorsFor => exact .mirrorsFor rfl
  | wrongPhase hstep => exact .wrongPhase hstep

/-! ## What stays -/

/-- Every mirror keeps its place and all but its whitelist, and that only grows. -/
def Keeps (ms ms' : List Mirror) : Prop :=
  ∀ (i : Nat) (m : Mirror), ms[i]? = some m →
    ∃ keys, ms'[i]? = some { m with whitelist := m.whitelist ++ keys }

namespace Keeps

variable {ms₁ ms₂ ms₃ : List Mirror}

theorem refl (ms : List Mirror) : Keeps ms ms := by
  intro i m hm
  exact ⟨[], by simpa using hm⟩

theorem trans (h : Keeps ms₁ ms₂) (h' : Keeps ms₂ ms₃) : Keeps ms₁ ms₃ := by
  intro i m hm
  obtain ⟨keys, hkeys⟩ := h i m hm
  obtain ⟨keys', hkeys'⟩ := h' i _ hkeys
  exact ⟨keys ++ keys', by simpa using hkeys'⟩

theorem append (ms ms' : List Mirror) : Keeps ms (ms ++ ms') := by
  intro i m hm
  have hi : i < ms.length := (List.getElem?_eq_some_iff.1 hm).1
  exact ⟨[], by simpa [List.getElem?_append_left hi] using hm⟩

/-- One mirror takes one more key. -/
theorem addKey (before after : List Mirror) (m : Mirror) (pattern : Text) :
    Keeps (before ++ m :: after)
      (before ++ { m with whitelist := m.whitelist ++ [pattern] } :: after) := by
  intro i x hx
  rcases Nat.lt_trichotomy i before.length with hi | rfl | hi
  · refine ⟨[], ?_⟩
    rw [List.getElem?_append_left hi] at hx ⊢
    simpa using hx
  · obtain rfl : m = x := by simpa using hx
    exact ⟨[pattern], by simp⟩
  · obtain ⟨j, rfl⟩ := Nat.exists_eq_add_of_lt hi
    refine ⟨[], ?_⟩
    rw [List.getElem?_append_right (by omega)] at hx ⊢
    rw [show before.length + j + 1 - before.length = j + 1 by omega] at hx ⊢
    simpa using hx

end Keeps

theorem Change.keeps (h : Change c isOpen inSetup ms step answer ms') (hstep : step ≠ .reset) :
    Keeps ms ms' := by
  cases h with
  | register _ _ _ _ => exact .append ms _
  | add _ _ _ => exact .append ms _
  | addKey _ _ hms _ =>
    subst hms
    exact .addKey _ _ _ _
  | reset _ => exact absurd rfl hstep
  | _ => exact .refl ms

theorem Takes.contents_eq (h : Takes σ step σ' answer) (hσ : σ.isOpen = false)
    (hstep : step ≠ .reset) : σ'.mirrors = σ.mirrors ∧ σ'.index = σ.index := by
  cases h with
  | register hw _ _ => simp [Session.isOpen, hw] at hσ
  | add hw _ => simp [Session.isOpen, hw] at hσ
  | addKey hw _ => simp [Session.isOpen, hw] at hσ
  | reset => exact absurd rfl hstep
  | _ => exact ⟨rfl, rfl⟩

theorem keeps_after (hσ : σ.Agrees) {steps : List Step} (hsteps : .reset ∉ steps) :
    Keeps σ.mirrors (σ.after steps).mirrors := by
  induction steps generalizing σ with
  | nil => exact .refl _
  | cons step steps ih =>
    obtain ⟨hne, hsteps⟩ := not_or.1 (List.mem_cons.not.1 hsteps)
    have hstep := takes_run σ step
    exact ((hstep.change hσ).keeps (Ne.symm hne)).trans (ih (hstep.agrees hσ) hsteps)

/-- Behind a closed window the contents stay as they are until they are reset. -/
theorem contents_after (hσ : σ.isOpen = false) {steps : List Step} (hsteps : .reset ∉ steps) :
    (σ.after steps).mirrors = σ.mirrors ∧ (σ.after steps).index = σ.index := by
  induction steps generalizing σ with
  | nil => exact ⟨rfl, rfl⟩
  | cons step steps ih =>
    obtain ⟨hne, hsteps⟩ := not_or.1 (List.mem_cons.not.1 hsteps)
    have hstep := takes_run σ step
    have hopen : (σ.run step).1.isOpen = false := by rw [hstep.isOpen_eq, hσ, Bool.false_and]
    obtain ⟨hm, hi⟩ := hstep.contents_eq hσ (Ne.symm hne)
    obtain ⟨hms, his⟩ := ih hopen hsteps
    exact ⟨hms.trans hm, his.trans hi⟩

/-- A registry that has been committed does not change any more. -/
theorem committed_after (r : Registry) (w : Window) (steps : List Step) :
    ∃ w', (Session.committed r w).after steps = .committed r w' := by
  induction steps generalizing w with
  | nil => exact ⟨w, rfl⟩
  | cons step steps ih => cases step <;> exact ih _

/-! ## The order of registration -/

/-- The ids after one more step, which was answered so. -/
def nextIds (ids : List Text) : Step → Answer → List Text
  | .register _ _ _, .id id | .add _, .id id => ids ++ [id]
  | .reset, .done => []
  | _, _ => ids

/-- The ids that are registered by some steps after `ids`, in that order, since the last reset. -/
def registered (σ : Session) (ids : List Text) : List Step → List Text
  | [] => ids
  | step :: steps => registered (σ.run step).1 (nextIds ids step (σ.run step).2) steps

theorem Change.map_id (h : Change c isOpen inSetup ms step answer ms') :
    ms'.map (·.id) = nextIds (ms.map (·.id)) step answer := by
  cases h with
  | register _ _ _ _ => simp [nextIds]
  | add _ _ _ => simp [nextIds]
  | addKey _ _ hms _ => simp [nextIds, hms]
  | closed _ _ hstep => cases step <;> rfl
  | wrongPhase _ => cases step <;> rfl
  | _ => rfl

theorem map_id_after (hσ : σ.Agrees) (steps : List Step) :
    (σ.after steps).mirrors.map (·.id) = registered σ (σ.mirrors.map (·.id)) steps := by
  induction steps generalizing σ with
  | nil => rfl
  | cons step steps ih =>
    have hstep := takes_run σ step
    rw [after_cons, ih (hstep.agrees hσ), (hstep.change hσ).map_id, registered]

/-! ## Sessions under one window -/

/-- What a host does with sessions that have clones of one window: a step of one of them, given by
its number.  Closing the window, with whichever clone, closes it for all. -/
def runAmong (σs : List Session) (p : Nat × Step) : List Session :=
  σs.mapIdx fun k σ => if p.1 = k ∨ p.2 = .close then (σ.run p.2).1 else σ

def afterAll (σs : List Session) (history : List (Nat × Step)) : List Session :=
  history.foldl runAmong σs

/-- The steps that one of the sessions sees. -/
def seenBy (k : Nat) (history : List (Nat × Step)) : List Step :=
  (history.filter fun p => p.1 = k ∨ p.2 = .close).map (·.2)

theorem getElem?_afterAll (σs : List Session) (history : List (Nat × Step)) (k : Nat) :
    (afterAll σs history)[k]? = σs[k]?.map (·.after (seenBy k history)) := by
  induction history generalizing σs with
  | nil => simp [afterAll, seenBy, after]
  | cons p history ih =>
    have hrest := ih (runAmong σs p)
    rw [afterAll, List.foldl_cons, ← afterAll, hrest, runAmong, List.getElem?_mapIdx]
    by_cases hp : p.1 = k ∨ p.2 = .close
    · simp [seenBy, hp, after_cons, Function.comp_def]
    · simp [seenBy, hp]

theorem seenBy_append (k : Nat) (history more : List (Nat × Step)) :
    seenBy k (history ++ more) = seenBy k history ++ seenBy k more := by
  simp [seenBy]

/-- One setup over each catalog, all under one open window. -/
def builders (cs : List Catalog) : List Session := cs.map fun c => .setup (.start c)

/-- A session is a map with these ids, in this order. -/
structure IsMap (σ : Session) (ids : List Text) : Prop where
  ids_eq : σ.mirrors.map (·.id) = ids
  nodup : ids.Nodup
  /-- The index leads to the ids of the mirrors, and to nothing else. -/
  index_iff : ∀ id i, σ.index.lookup id = some i ↔ ids[i]? = some id
  in_range : ∀ id i, σ.index.lookup id = some i → i < σ.mirrors.length
  lookup : ∀ id, ∃ found, σ.run (.lookup id) = (σ, .mirror found) ∧
    ∀ m, found = some m ↔ m ∈ σ.mirrors ∧ m.id = id

theorem Agrees.isMap (h : σ.Agrees) : σ.IsMap (σ.mirrors.map (·.id)) where
  ids_eq := rfl
  nodup := h.nodup_ids
  index_iff := by
    intro id i
    rw [List.getElem?_map]
    exact h id i
  in_range := by
    intro id i hi
    obtain ⟨m, hm, -⟩ := h.exists_of_lookup hi
    exact (List.getElem?_eq_some_iff.1 hm).1
  lookup := by
    intro id
    refine ⟨(σ.index.entry? σ.mirrors id).map (·.2), by cases σ <;> rfl, fun m => ?_⟩
    rw [Option.map_eq_some_iff]
    constructor
    · rintro ⟨p, hp, rfl⟩
      obtain ⟨hi, hid⟩ := h.entry?_iff.1 hp
      exact ⟨List.mem_of_getElem? hi, hid⟩
    · rintro ⟨hm, rfl⟩
      obtain ⟨i, hi⟩ := List.getElem?_of_mem hm
      exact ⟨(i, m), h.entry?_iff.2 ⟨hi, rfl⟩, rfl⟩

theorem all_seenBy {k : Nat} {history : List (Nat × Step)} :
    (seenBy k history).all (· != .close) ↔ ∀ p ∈ history, p.2 ≠ .close := by
  constructor
  · intro hall p hp hclose
    have hseen : Step.close ∈ seenBy k history :=
      List.mem_map.2 ⟨p, List.mem_filter.2 ⟨hp, by simp [hclose]⟩, hclose⟩
    simpa using List.all_eq_true.1 hall _ hseen
  · intro hne
    rw [List.all_eq_true]
    intro step hstep
    obtain ⟨p, hp, rfl⟩ := List.mem_map.1 hstep
    simpa using hne p (List.mem_filter.1 hp).1

theorem reset_not_mem_seenBy {k : Nat} {more : List (Nat × Step)} (h : (k, .reset) ∉ more) :
    .reset ∉ seenBy k more := by
  intro hseen
  obtain ⟨⟨j, step⟩, hp, rfl : step = .reset⟩ := List.mem_map.1 hseen
  obtain ⟨hmem, hk⟩ := List.mem_filter.1 hp
  obtain rfl : j = k := by simpa using hk
  exact h hmem

/-- Builders over any catalogs share one window.  Whatever is done with them and with the window, a
builder, and the registry that it is finalized to, is an ordered map of what has been registered
with it since it was last reset; each step acts on the ordered list of its mirrors alone, and one
that is refused leaves everything as it was.  The window is open until it is closed with any clone.
From then on whatever needs it is refused for that reason, and the contents stay until they are
reset.  As long as there is no reset a mirror keeps its place and everything but its whitelist,
which grows. -/
theorem ordered_map_with_window {cs : List Catalog} {k : Nat} {c : Catalog} (hk : cs[k]? = some c)
    (history : List (Nat × Step)) :
    ∃ σ, (afterAll (builders cs) history)[k]? = some σ ∧
      σ.IsMap (registered (.setup (.start c)) [] (seenBy k history)) ∧
      (∀ step, Change c σ.isOpen σ.inSetup σ.mirrors step (σ.run step).2 (σ.run step).1.mirrors) ∧
      (∀ step e, (σ.run step).2 = .refused e → (σ.run step).1 = σ) ∧
      (σ.isOpen ↔ ∀ p ∈ history, p.2 ≠ .close) ∧
      (σ.isOpen = false → σ.inSetup → ∀ step p, step.setup? = some p →
        σ.run step = (σ, .refused (.lifecycleViolation p))) ∧
      ∀ more, ∃ σ', (afterAll (builders cs) (history ++ more))[k]? = some σ' ∧
        ((k, .reset) ∉ more → Keeps σ.mirrors σ'.mirrors ∧
          (σ.isOpen = false → σ'.mirrors = σ.mirrors ∧ σ'.index = σ.index)) ∧
        ∀ r w, σ = .committed r w → ∃ w', σ' = .committed r w' := by
  have hat : ∀ history : List (Nat × Step), (afterAll (builders cs) history)[k]? =
      some ((Session.setup (.start c)).after (seenBy k history)) := by
    intro history
    rw [getElem?_afterAll, builders, List.getElem?_map, hk]
    rfl
  have hmore : ∀ more : List (Nat × Step), (afterAll (builders cs) (history ++ more))[k]? =
      some (((Session.setup (.start c)).after (seenBy k history)).after (seenBy k more)) := by
    intro more
    rw [hat, seenBy_append, after_append]
  have hagrees := agrees_after (agrees_start c) (seenBy k history)
  have hids := map_id_after (agrees_start c) (seenBy k history)
  have hcatalog := catalog_after (.setup (.start c)) (seenBy k history)
  have hopen := isOpen_after (.setup (.start c)) (seenBy k history)
  refine ⟨_, hat history, ?_⟩
  generalize (Session.setup (.start c)).after (seenBy k history) = σ at *
  refine ⟨?map, ?change, ?refused, ?window, ?closed, fun more => ⟨_, hmore more, ?stays, ?fixed⟩⟩
  case map =>
    have hmap := hagrees.isMap
    rwa [hids] at hmap
  case change =>
    intro step
    have hchange := (takes_run σ step).change hagrees
    rwa [hcatalog] at hchange
  case refused =>
    intro step e he
    have htakes := takes_run σ step
    rw [he] at htakes
    exact htakes.eq_of_refused
  case window =>
    rw [hopen, ← all_seenBy (k := k)]
    rfl
  case closed =>
    intro hclosed hphase step p hp
    cases σ with
    | committed r w => cases hphase
    | setup s => exact run_of_closed (window_eq_closed hclosed) hp
  case stays =>
    intro hreset
    have hsteps := reset_not_mem_seenBy hreset
    exact ⟨keeps_after hagrees hsteps, fun hclosed => contents_after hclosed hsteps⟩
  case fixed =>
    rintro r w rfl
    exact committed_after r w (seenBy k more)

/-- Two builders share a window, which is closed through the first of them.  A key for the mirror of
the second is refused then. -/
theorem ordered_map_with_window_sample :
    let history : List (Nat × Step) :=
      [(1, .register "wp_postmeta".toList "integer".toList []), (0, .close)]
    ∃ σ, (afterAll (builders [.standard, .standard]) history)[1]? = some σ ∧
      σ.index.lookup "wp_postmeta_mm_integer".toList = some 0 ∧
      ∀ pattern, σ.run (.addKey "wp_postmeta_mm_integer".toList pattern) =
        (σ, .refused (.lifecycleViolation .whitelisting)) := by
  intro history
  have hk : [Catalog.standard, Catalog.standard][1]? = some .standard := rfl
  obtain ⟨σ, hσ, hmap, -, -, hopen, hclosed, -⟩ := ordered_map_with_window hk history
  have hids : registered (.setup (.start .standard)) [] (seenBy 1 history) =
      ["wp_postmeta_mm_integer".toList] := by decide +kernel
  have hsetup : σ.inSetup = true := by
    have hphase : ((afterAll (builders [.standard, .standard]) history)[1]?.map
        (·.inSetup)) = some true := by decide +kernel
    rw [hσ] at hphase
    exact Option.some.inj hphase
  have hshut : σ.isOpen = false := by
    rw [Bool.eq_false_iff, ne_eq, hopen]
    intro hnone
    exact hnone (0, .close) (by simp [history]) rfl
  refine ⟨σ, hσ, ?_, fun pattern => hclosed hshut hsetup _ _ rfl⟩
  rw [hmap.index_iff, hids]
  rfl

end Session

end TypedMirror
