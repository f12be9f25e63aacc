import TypedMirror.Proofs.Idempotence
import TypedMirror.Proofs.Sessions

/-!
# Committed registries

A registry is committed at the end of a session of registration.  Whatever a host does in between,
every mirror of it has been defined over some catalog, and no two have one id.

* `Session.Takes.defined` — a step leaves only mirrors that have been defined;
* `Registry.Committed.enrolled` — and so does every session.
-/

namespace TypedMirror

/-- Mirrors that have been defined, and are told apart by their ids. -/
structure Enrolled (mirrors : List Mirror) : Prop where
  defined : ∀ m ∈ mirrors, m.Defined
  nodup_ids : (mirrors.map (·.id)).Nodup

/-- A mirror that a step hands over has been defined before. -/
def Session.Step.Sound (step : Session.Step) : Prop := ∀ m, step = .add m → m.Defined

/-- What a session that started with nothing registered has committed. -/
def Registry.Committed (r : Registry) : Prop :=
  ∃ c steps window, (∀ step ∈ steps, step.Sound) ∧
    (Session.setup (.start c)).after steps = .committed r window

namespace Session

variable {σ σ' : Session} {step : Step} {answer : Answer}

theorem Takes.defined (h : Takes σ step σ' answer) (hstep : step.Sound)
    (hσ : ∀ m ∈ σ.mirrors, m.Defined) : ∀ m ∈ σ'.mirrors, m.Defined := by
  have happend : ∀ {m : Mirror}, m.Defined → ∀ x ∈ σ.mirrors ++ [m], x.Defined := by
    intro m hm x hx
    rcases List.mem_append.1 hx with hx | hx
    · exact hσ x hx
    · rwa [List.mem_singleton.1 hx]
  cases h with
  | register _ hread ha =>
    obtain ⟨-, rfl⟩ := Setup.add_eq_ok ha
    obtain ⟨t, -, hdefine⟩ := Mirror.read_eq_ok hread
    exact happend (.define hdefine)
  | add _ ha =>
    obtain ⟨-, rfl⟩ := Setup.add_eq_ok ha
    exact happend (hstep _ rfl)
  | addKey _ hk =>
    obtain ⟨i, m, m', he, hm, rfl⟩ := Setup.addKey_eq_ok hk
    intro x hx
    rcases List.mem_or_eq_of_mem_set hx with hx | rfl
    · exact hσ x hx
    · exact .addKey (hσ m (Setup.mem_of_entry? he)) hm
  | reset => exact fun m hm => (List.not_mem_nil hm).elim
  | _ => exact hσ

theorem defined_after (hσ : ∀ m ∈ σ.mirrors, m.Defined) {steps : List Step}
    (hsteps : ∀ step ∈ steps, step.Sound) : ∀ m ∈ (σ.after steps).mirrors, m.Defined := by
  induction steps generalizing σ with
  | nil => exact hσ
  | cons step steps ih =>
    obtain ⟨hstep, hsteps⟩ := List.forall_mem_cons.1 hsteps
    exact ih ((takes_run σ step).defined hstep hσ) hsteps

/-- What a session that starts with nothing registered comes to. -/
theorem enrolled_after (c : Catalog) {steps : List Step} (hsteps : ∀ step ∈ steps, step.Sound) :
    Enrolled ((Session.setup (.start c)).after steps).mirrors where
  defined := defined_after (fun _ hm => (List.not_mem_nil hm).elim) hsteps
  nodup_ids := (agrees_after (agrees_start c) steps).nodup_ids

end Session

theorem Registry.Committed.enrolled {r : Registry} (h : r.Committed) : Enrolled r.mirrors := by
  obtain ⟨c, steps, window, hsteps, hafter⟩ := h
  have hend := Session.enrolled_after c hsteps
  rwa [hafter] at hend

end TypedMirror
