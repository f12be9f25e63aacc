import TypedMirror.Registry.Session
import TypedMirror.Proofs.Registration

/-!
# The steps of a session

What a session does with each step of a host, its refusals included, and what holds of it after any
number of steps.

* `Session.Takes` — the ways in which a session takes a step;
* `Session.takes_run` — these are all ways;
* `Session.agrees_after` — the index gives the position of each mirror after any steps.
-/

namespace TypedMirror

namespace Session

/-- The session after some steps. -/
def after (σ : Session) (steps : List Step) : Session :=
  steps.foldl (fun σ step => (σ.run step).1) σ

theorem after_cons (σ : Session) (step : Step) (steps : List Step) :
    σ.after (step :: steps) = (σ.run step).1.after steps := rfl

theorem after_append (σ : Session) (steps steps' : List Step) :
    σ.after (steps ++ steps') = (σ.after steps).after steps' := List.foldl_append

/-- What a step needs the window for. -/
def Step.setup? : Step → Option SetupStep
  | .register _ _ _ => some .registering
  | .add _ => some .registering
  | .addKey _ _ => some .whitelisting
  | _ => none

/-- Whether a step belongs to the setup phase, if it does not belong to both. -/
def Step.inSetup? : Step → Option Bool
  | .register _ _ _ | .add _ | .addKey _ _ | .reset | .finalize => some true
  | .close | .lookup _ => none
  | .sourceTables | .mirrorsFor _ => some false

def inSetup : Session → Bool
  | .setup _ => true
  | .committed _ _ => false

def catalog : Session → Catalog
  | .setup s => s.catalog
  | .committed r _ => r.catalog

end Session

/-! ## Refusals -/

namespace Setup

variable {s s' : Setup} {m : Mirror} {id pattern source type : Text} {args : List Text}
  {e : MirrorError}

/-- A setup refuses a step with an error. -/
inductive Refuses (s : Setup) : Session.Step → MirrorError → Prop
  | closed {step : Session.Step} {p : SetupStep} (hw : s.window = .closed)
    (hp : step.setup? = some p) : Refuses s step (.lifecycleViolation p)
  | unread {source type : Text} {args : List Text} {e : MirrorError} (hw : s.window = .isOpen)
    (hread : Mirror.read s.catalog source type args = .error e) :
    Refuses s (.register source type args) e
  | registeredTwice {source type : Text} {args : List Text} {m : Mirror} {i : Nat}
    (hw : s.window = .isOpen) (hread : Mirror.read s.catalog source type args = .ok m)
    (hi : s.index.lookup m.id = some i) :
    Refuses s (.register source type args) (.duplicateMirror m.id)
  | addedTwice {m : Mirror} {i : Nat} (hw : s.window = .isOpen)
    (hi : s.index.lookup m.id = some i) : Refuses s (.add m) (.duplicateMirror m.id)
  | unknown {id pattern : Text} (hw : s.window = .isOpen) (he : s.entry? id = none) :
    Refuses s (.addKey id pattern) (.unknownMirror id)
  | blankKey {id pattern : Text} {i : Nat} {m : Mirror} (hw : s.window = .isOpen)
    (he : s.entry? id = some (i, m)) (hblank : Text.trim pattern = []) :
    Refuses s (.addKey id pattern) (.emptyKeyPattern m.id)

theorem ensureOpen_of_isOpen (hw : s.window = .isOpen) (p : SetupStep) :
    s.ensureOpen p = .ok () := if_pos hw

theorem ensureOpen_of_closed (hw : s.window = .closed) (p : SetupStep) :
    s.ensureOpen p = .error (.lifecycleViolation p) := if_neg (by simp [hw])

/-- The window is open for a setup that gets past the check of it. -/
theorem isOpen_of_bind {α : Type} {p : SetupStep} {f : Unit → Except MirrorError α} {a : α}
    (h : s.ensureOpen p >>= f = .ok a) : s.window = .isOpen := by
  cases hw : s.window with
  | isOpen => rfl
  | closed =>
    rw [ensureOpen_of_closed hw] at h
    cases h

theorem refuses_of_add (h : s.add m = .error e) : s.Refuses (.add m) e := by
  unfold add at h
  cases hw : s.window with
  | closed =>
    rw [ensureOpen_of_closed hw] at h
    cases h
    exact .closed hw rfl
  | isOpen =>
    rw [ensureOpen_of_isOpen hw] at h
    cases hi : s.index.lookup m.id with
    | none =>
      rw [hi] at h
      cases h
    | some i =>
      rw [hi] at h
      cases h
      exact .addedTwice hw hi

theorem refuses_of_register (h : s.register source type args = .error e) :
    s.Refuses (.register source type args) e := by
  unfold register at h
  cases hw : s.window with
  | closed =>
    rw [ensureOpen_of_closed hw] at h
    cases h
    exact .closed hw rfl
  | isOpen =>
    rw [ensureOpen_of_isOpen hw] at h
    cases hread : Mirror.read s.catalog source type args with
    | error e' =>
      rw [hread] at h
      cases h
      exact .unread hw hread
    | ok m =>
      rw [hread] at h
      cases ha : s.add m with
      | ok s' => simp [bind, Except.bind, ha, pure, Except.pure] at h
      | error e' =>
        obtain rfl : e' = e := by simpa [bind, Except.bind, ha] using h
        cases refuses_of_add ha with
        | closed hclosed _ => exact absurd (hw.symm.trans hclosed) nofun
        | addedTwice _ hi => exact .registeredTwice hw hread hi

theorem refuses_of_addKey (h : s.addKey id pattern = .error e) :
    s.Refuses (.addKey id pattern) e := by
  unfold addKey at h
  cases hw : s.window with
  | closed =>
    rw [ensureOpen_of_closed hw] at h
    cases h
    exact .closed hw rfl
  | isOpen =>
    rw [ensureOpen_of_isOpen hw] at h
    cases he : s.entry? id with
    | none =>
      rw [he] at h
      cases h
      exact .unknown hw he
    | some p =>
      obtain ⟨i, m⟩ := p
      by_cases hblank : Text.trim pattern = []
      · simp only [bind, Except.bind, he, Mirror.addKey, hblank, List.isEmpty_nil, if_true] at h
        cases h
        exact .blankKey hw he hblank
      · simp [bind, Except.bind, he, Mirror.addKey, hblank, pure, Except.pure] at h

end Setup

/-- A key that is added is not blank. -/
theorem Mirror.trim_ne_nil_of_addKey {m m' : Mirror} {pattern : Text}
    (h : m.addKey pattern = .ok m') : Text.trim pattern ≠ [] := by
  intro hblank
  simp [Mirror.addKey, hblank] at h

/-! ## One step -/

namespace Session

variable {σ σ' : Session} {step : Step} {answer : Answer}

/-- A session takes a step, and answers. -/
inductive Takes : Session → Step → Session → Answer → Prop
  | register {s s' : Setup} {source type : Text} {args : List Text} {m : Mirror}
    (hw : s.window = .isOpen) (hread : Mirror.read s.catalog source type args = .ok m)
    (ha : s.add m = .ok s') :
    Takes (.setup s) (.register source type args) (.setup s') (.id m.id)
  | add {s s' : Setup} {m : Mirror} (hw : s.window = .isOpen) (ha : s.add m = .ok s') :
    Takes (.setup s) (.add m) (.setup s') (.id m.id)
  | addKey {s s' : Setup} {id pattern : Text} (hw : s.window = .isOpen)
    (hk : s.addKey id pattern = .ok s') : Takes (.setup s) (.addKey id pattern) (.setup s') .done
  | refused {s : Setup} {step : Step} {e : MirrorError} (he : s.Refuses step e) :
    Takes (.setup s) step (.setup s) (.refused e)
  | reset {s : Setup} : Takes (.setup s) .reset (.setup s.reset) .done
  | finalize {s : Setup} : Takes (.setup s) .finalize (.committed s.finalize s.window) .done
  | closeSetup {s : Setup} : Takes (.setup s) .close (.setup s.close) .done
  | closeCommitted {r : Registry} {w : Window} :
    Takes (.committed r w) .close (.committed r .closed) .done
  | lookup {σ : Session} {id : Text} :
    Takes σ (.lookup id) σ (.mirror ((σ.index.entry? σ.mirrors id).map (·.2)))
  | sourceTables {r : Registry} {w : Window} :
    Takes (.committed r w) .sourceTables (.committed r w) (.names r.sourceTables)
  | mirrorsFor {r : Registry} {w : Window} {source : Text} :
    Takes (.committed r w) (.mirrorsFor source) (.committed r w)
      (.names ((r.mirrorsFor source).map (·.id)))
  | wrongPhase {σ : Session} {step : Step} (hstep : step.inSetup? = some !σ.inSetup) :
    Takes σ step σ .wrongPhase

theorem takes_run (σ : Session) (step : Step) : Takes σ step (σ.run step).1 (σ.run step).2 := by
  cases σ with
  | committed r w =>
    cases step with
    | close => exact .closeCommitted
    | lookup id => exact .lookup
    | sourceTables => exact .sourceTables
    | mirrorsFor source => exact .mirrorsFor
    | _ => exact .wrongPhase rfl
  | setup s =>
    cases step with
    | register source type args =>
      rw [run]
      cases hr : s.register source type args with
      | error e => exact .refused (Setup.refuses_of_register hr)
      | ok p =>
        obtain ⟨s', id⟩ := p
        obtain ⟨m, hread, ha, rfl⟩ := Setup.register_eq_ok hr
        exact .register (Setup.isOpen_of_bind hr) hread ha
    | add m =>
      rw [run]
      cases ha : s.add m with
      | error e => exact .refused (Setup.refuses_of_add ha)
      | ok s' => exact .add (Setup.isOpen_of_bind ha) ha
    | addKey id pattern =>
      rw [run]
      cases hk : s.addKey id pattern with
      | error e => exact .refused (Setup.refuses_of_addKey hk)
      | ok s' => exact .addKey (Setup.isOpen_of_bind hk) hk
    | reset => exact .reset
    | finalize => exact .finalize
    | close => exact .closeSetup
    | lookup id => exact .lookup
    | _ => exact .wrongPhase rfl

/-- The index gives for each id the position of the mirror with it. -/
def Agrees (σ : Session) : Prop := σ.index.Agrees σ.mirrors

namespace Takes

theorem agrees (h : Takes σ step σ' answer) (hσ : σ.Agrees) : σ'.Agrees := by
  cases h with
  | register _ _ ha => exact Setup.agrees_of_add hσ ha
  | add _ ha => exact Setup.agrees_of_add hσ ha
  | addKey _ hk => exact Setup.agrees_of_addKey hσ hk
  | reset => exact .nil
  | _ => exact hσ

theorem catalog_eq (h : Takes σ step σ' answer) : σ'.catalog = σ.catalog := by
  cases h with
  | register _ _ ha =>
    rw [(Setup.add_eq_ok ha).2]
    rfl
  | add _ ha =>
    rw [(Setup.add_eq_ok ha).2]
    rfl
  | addKey _ hk =>
    obtain ⟨i, m, m', -, -, rfl⟩ := Setup.addKey_eq_ok hk
    rfl
  | _ => rfl

theorem isOpen_eq (h : Takes σ step σ' answer) :
    σ'.isOpen = (σ.isOpen && step != .close) := by
  cases h with
  | register _ _ ha =>
    rw [(Setup.add_eq_ok ha).2]
    simp [isOpen]
  | add _ ha =>
    rw [(Setup.add_eq_ok ha).2]
    simp [isOpen]
  | addKey _ hk =>
    obtain ⟨i, m, m', -, -, rfl⟩ := Setup.addKey_eq_ok hk
    simp [isOpen]
  | refused he =>
    cases he with
    | closed hw _ => simp [isOpen, hw]
    | _ => simp
  | reset => exact (Bool.and_true _).symm
  | closeSetup => simp [isOpen, Setup.close]
  | closeCommitted => simp [isOpen]
  | wrongPhase hstep =>
    cases step with
    | close => cases hstep
    | _ => simp
  | _ => simp [isOpen]

/-- A step that is refused changes nothing, the index included. -/
theorem eq_of_refused {e : MirrorError} (h : Takes σ step σ' (.refused e)) : σ' = σ := by
  cases h
  rfl

end Takes

theorem window_eq_closed {s : Setup} (h : (Session.setup s).isOpen = false) :
    s.window = .closed := by
  cases hw : s.window with
  | isOpen => simp [isOpen, hw] at h
  | closed => rfl

/-- Once the window is closed, whatever it is needed for is refused for that reason. -/
theorem run_of_closed {s : Setup} {p : SetupStep} (hw : s.window = .closed)
    (hp : step.setup? = some p) :
    (Session.setup s).run step = (.setup s, .refused (.lifecycleViolation p)) := by
  have hclosed := Setup.ensureOpen_of_closed hw
  cases step <;> cases hp <;>
    simp [run, changed, Setup.register, Setup.add, Setup.addKey, hclosed, bind, Except.bind]

/-! ## Any steps -/

theorem agrees_start (c : Catalog) : (Session.setup (.start c)).Agrees := .nil

theorem agrees_after (h : σ.Agrees) (steps : List Step) : (σ.after steps).Agrees := by
  induction steps generalizing σ with
  | nil => exact h
  | cons step steps ih => exact ih ((takes_run σ step).agrees h)

theorem catalog_after (σ : Session) (steps : List Step) : (σ.after steps).catalog = σ.catalog := by
  induction steps generalizing σ with
  | nil => rfl
  | cons step steps ih => rw [after_cons, ih, (takes_run σ step).catalog_eq]

/-- The window is open until it is closed. -/
theorem isOpen_after (σ : Session) (steps : List Step) :
    (σ.after steps).isOpen = (σ.isOpen && steps.all (· != .close)) := by
  induction steps generalizing σ with
  | nil => simp [after]
  | cons step steps ih =>
    rw [after_cons, ih, (takes_run σ step).isOpen_eq, List.all_cons, Bool.and_assoc]

end Session

end TypedMirror
