/-!
# Runs that come to a result

* `bind_eq_ok` — both steps of such a run come to one;
* `map_eq_ok` — so does the run that a result is computed from;
* `mapM_eq_ok` — steps that do, one after the other;
* `Both` — two runs that come to related results, step by step.
-/

namespace TypedMirror

variable {ε α β : Type} {e : Except ε α} {b : β}

theorem bind_eq_ok {f : α → Except ε β} : e >>= f = .ok b ↔ ∃ a, e = .ok a ∧ f a = .ok b := by
  cases e with
  | error e => simp [bind, Except.bind]
  | ok a => simp [bind, Except.bind]

theorem map_eq_ok {f : α → β} : e.map f = .ok b ↔ ∃ a, e = .ok a ∧ f a = b := by
  cases e with
  | error e => simp [Except.map]
  | ok a => simp [Except.map]

theorem mapM_eq_ok {f : α → Except ε β} {g : α → β} {xs : List α} (h : ∀ x ∈ xs, f x = .ok (g x)) :
    xs.mapM f = .ok (xs.map g) := by
  induction xs with
  | nil => rfl
  | cons x xs ih =>
    rw [List.mapM_cons, h x List.mem_cons_self, ih fun y hy => h y (List.mem_cons_of_mem x hy)]
    rfl

theorem eq_ok_of_toOption {a : α} (h : e.toOption = some a) : e = .ok a := by
  cases e with
  | error e => cases h
  | ok b => exact congrArg Except.ok (Option.some.inj h)

/-- Both runs come to a result, and the two results are related. -/
def Both (R : α → β → Prop) (e : Except ε α) (d : Except ε β) : Prop :=
  ∃ a b, e = .ok a ∧ d = .ok b ∧ R a b

namespace Both

variable {γ δ : Type} {R : α → β → Prop} {S : γ → δ → Prop} {P : α → Prop} {d : Except ε β}

theorem done {a : α} (h : R a b) : Both R (ε := ε) (pure a) (pure b) := ⟨a, b, rfl, rfl, h⟩

theorem bind {f : α → Except ε γ} {g : β → Except ε δ} (h : Both R e d)
    (hf : ∀ a b, R a b → Both S (f a) (g b)) : Both S (e >>= f) (d >>= g) := by
  obtain ⟨a, b, rfl, rfl, hab⟩ := h
  exact hf a b hab

/-- Two runs that start with the same step. -/
theorem same {f : α → Except ε γ} {g : α → Except ε δ} (h : ∃ a, e = .ok a ∧ P a)
    (hf : ∀ a, P a → Both S (f a) (g a)) : Both S (e >>= f) (e >>= g) := by
  obtain ⟨a, rfl, ha⟩ := h
  exact hf a ha

end Both

end TypedMirror
