import TypedMirror.Proofs.Stepwise.Cursor

/-!
# Runs

A run of a step says what the step gives, where it leaves the cursor, and that every rule tried on
the way found the cursor in order and left it so.  Runs are put together as the steps are.

* `Call.Good` — what holds before and after a rule, and which rules go all the way back;
* `Runs` — a step from one cursor to another;
* `Runs.bind`, `Runs.attempt_none`, `Runs.call`, `Runs.loop_more` — how steps are put together.
-/

namespace TypedMirror.Stepwise

open Cursor (moved_length)

/-- The rules that leave the cursor where it was if they do not match. -/
def Rule.restores : Rule → Bool
  | .tableRef | .join | .columnRef | .operator | .setClause => true
  | _ => false

/-- The cursor is in order before the rule and after it, and if the rule is one that goes back, it
is where it was unless the rule has matched. -/
structure Call.Good (source : Text) (k : Call) : Prop where
  before : k.before.Sound source
  after : k.after.Sound source
  restored : k.rule.restores = true → k.matched = false → k.after = k.before

theorem Call.good_of_match {source : Text} {c c' : Cursor} (rule : Rule) (h : c.Sound source)
    (h' : c'.Sound source) : Call.Good source ⟨rule, c, c', true⟩ :=
  ⟨h, h', fun _ hmatched => by cases hmatched⟩

theorem Call.good_of_eq {source : Text} {c : Cursor} (rule : Rule) (h : c.Sound source)
    (matched : Bool) : Call.Good source ⟨rule, c, c, matched⟩ :=
  ⟨h, h, fun _ _ => rfl⟩

theorem Call.good_of_free {source : Text} {rule : Rule} {c c' : Cursor}
    (hrule : rule.restores = false) (h : c.Sound source) (h' : c'.Sound source) (matched : Bool) :
    Call.Good source ⟨rule, c, c', matched⟩ :=
  ⟨h, h', fun hrestores => by rw [hrule] at hrestores; cases hrestores⟩

/-- The step goes from `c` to `c'` and gives `r`, and all rules tried on the way are good. -/
structure Runs {α : Type} (source : Text) (p : Step α) (c : Cursor) (r : Except Refusal α)
    (c' : Cursor) : Prop where
  result : (p source c).result = r
  cursor : (p source c).cursor = c'
  calls : ∀ k ∈ (p source c).calls, k.Good source

/-- The next token is of a sort, and `rest` is behind it. -/
def Takes (p : Token → Bool) (ts rest : List Token) : Prop := ∃ t, ts = t :: rest ∧ p t = true

theorem Takes.suffix {p : Token → Bool} {ts rest : List Token} (h : Takes p ts rest) :
    rest <:+ ts := by
  obtain ⟨t, rfl, -⟩ := h
  exact List.suffix_cons t rest

/-- The next token is not of a sort. -/
def Lacks (p : Token → Bool) (ts : List Token) : Prop := ∀ t ∈ ts.head?, p t = false

section Lacks

variable {source : Text} {c : Cursor} {p : Token → Bool} {t : Token} {ts : List Token}

theorem lacks_nil (hc : c.At source []) : Lacks p (c.rest source) := by
  rw [hc.rest]
  rintro t ⟨⟩

theorem lacks_cons (hc : c.At source (t :: ts)) (ht : ¬p t = true) : Lacks p (c.rest source) := by
  rw [hc.rest]
  rintro _ ⟨⟩
  exact Bool.eq_false_iff.2 ht

end Lacks

section Tokens

open Grammar (keyword? punct? operator? number?)

variable {read : List Token → Option (List Token)} {sort : Token → Bool} {ts rest : List Token}

/-- A production of a single token. -/
structure Tests (read : List Token → Option (List Token)) (sort : Token → Bool) : Prop where
  nil : read [] = none
  cons : ∀ t ts, read (t :: ts) = if sort t then some ts else none

theorem Tests.takes (h : Tests read sort) (hts : read ts = some rest) : Takes sort ts rest := by
  cases ts with
  | nil => cases h.nil.symm.trans hts
  | cons t ts =>
    rw [h.cons] at hts
    split at hts
    · rename_i ht
      cases hts
      exact ⟨t, rfl, ht⟩
    · cases hts

theorem Tests.lacks (h : Tests read sort) (hts : read ts = none) : Lacks sort ts := by
  cases ts with
  | nil => rintro t ⟨⟩
  | cons t ts =>
    rw [h.cons] at hts
    split at hts
    · cases hts
    · rename_i ht
      rintro _ ⟨⟩
      exact Bool.eq_false_iff.2 ht

theorem Tests.takes_at {source : Text} {c : Cursor} (h : Tests read sort) (hc : c.At source ts)
    (hts : read ts = some rest) : Takes sort (c.rest source) rest := by
  rw [hc.rest]
  exact h.takes hts

theorem Tests.lacks_at {source : Text} {c : Cursor} (h : Tests read sort) (hc : c.At source ts)
    (hts : read ts = none) : Lacks sort (c.rest source) := by
  rw [hc.rest]
  exact h.lacks hts

theorem Tests.isSome_eq (h : Tests read sort) (ts : List Token) :
    (read ts).isSome = ts.head?.any sort := by
  cases ts with
  | nil => rw [h.nil]; rfl
  | cons t ts =>
    rw [h.cons, List.head?_cons, Option.any_some]
    cases sort t with
    | true => rfl
    | false => rfl

theorem tests_keyword? (word : String) : Tests (keyword? word) (·.isKeyword word) :=
  ⟨rfl, fun _ _ => rfl⟩

theorem tests_punct? (c : Char) : Tests (punct? c) (·.isPunct c) := ⟨rfl, fun _ _ => rfl⟩

theorem tests_operator? (symbol : String) : Tests (operator? symbol) (·.isOperator symbol) :=
  ⟨rfl, fun _ _ => rfl⟩

theorem tests_number? : Tests number? (·.kind = .number) :=
  ⟨rfl, fun t ts => by simp only [number?, decide_eq_true_eq]⟩

end Tokens

namespace Runs

variable {α β σ : Type} {source : Text} {p q : Step α} {f : α → Step β} {c c' c'' : Cursor} {a : α}
  {r : Except Refusal α} {s : Except Refusal β} {e : Refusal}

/-! ## Steps put together -/

theorem pure (source : Text) (a : α) (c : Cursor) :
    Runs source (Pure.pure a : Step α) c (.ok a) c :=
  ⟨rfl, rfl, by rintro k ⟨⟩⟩

theorem refuse (source : Text) (c : Cursor) :
    Runs source (refuse : Step α) c (.error .noMatch) c :=
  ⟨rfl, rfl, by rintro k ⟨⟩⟩

theorem unsupported (source : Text) (u : Unsupported) (c : Cursor) :
    Runs source (unsupported u : Step α) c (.error (.unsupported u)) c :=
  ⟨rfl, rfl, by rintro k ⟨⟩⟩

theorem current (source : Text) (c : Cursor) : Runs source current c (.ok c) c :=
  ⟨rfl, rfl, by rintro k ⟨⟩⟩

theorem sourceText (source : Text) (c : Cursor) : Runs source sourceText c (.ok source) c :=
  ⟨rfl, rfl, by rintro k ⟨⟩⟩

theorem change (source : Text) (g : Cursor → Cursor) (c : Cursor) :
    Runs source (change g) c (.ok ()) (g c) :=
  ⟨rfl, rfl, by rintro k ⟨⟩⟩

theorem rewind (source : Text) (h : c.Extends c') : Runs source (rewind c.mark) c' (.ok ()) c := by
  have hrewind := change source (·.rewind c.mark) c'
  rw [h.rewind_mark] at hrewind
  exact hrewind

theorem bind (hp : Runs source p c (.ok a) c') (hf : Runs source (f a) c' s c'') :
    Runs source (p >>= f) c s c'' := by
  have heq : (p >>= f) source c = ⟨(f a source c').result, (f a source c').cursor,
      (p source c).calls ++ (f a source c').calls⟩ := by
    simp only [Bind.bind, hp.result, hp.cursor]
  refine ⟨by rw [heq, hf.result], by rw [heq, hf.cursor], ?_⟩
  intro k hk
  rw [heq] at hk
  rcases List.mem_append.1 hk with hk | hk
  · exact hp.calls k hk
  · exact hf.calls k hk

theorem bind_error (hp : Runs source p c (.error e) c') : Runs source (p >>= f) c (.error e) c' := by
  have heq : (p >>= f) source c = ⟨.error e, c', (p source c).calls⟩ := by
    simp only [Bind.bind, hp.result, hp.cursor]
  exact ⟨by rw [heq], by rw [heq], by rw [heq]; exact hp.calls⟩

theorem attempt_some (hp : Runs source p c (.ok a) c') :
    Runs source (attempt p) c (.ok (some a)) c' := by
  have heq : attempt p source c = ⟨.ok (some a), c', (p source c).calls⟩ := by
    simp only [attempt, hp.result, hp.cursor]
  exact ⟨by rw [heq], by rw [heq], by rw [heq]; exact hp.calls⟩

theorem attempt_none (hp : Runs source p c (.error .noMatch) c') :
    Runs source (attempt p) c (.ok none) c' := by
  have heq : attempt p source c = ⟨.ok none, c', (p source c).calls⟩ := by
    simp only [attempt, hp.result, hp.cursor]
  exact ⟨by rw [heq], by rw [heq], by rw [heq]; exact hp.calls⟩

theorem attempt_error {u : Unsupported} (hp : Runs source p c (.error (.unsupported u)) c') :
    Runs source (attempt p) c (.error (.unsupported u)) c' := by
  have heq : attempt p source c = ⟨.error (.unsupported u), c', (p source c).calls⟩ := by
    simp only [attempt, hp.result, hp.cursor]
  exact ⟨by rw [heq], by rw [heq], by rw [heq]; exact hp.calls⟩

theorem quietly (hp : Runs source p c r c') (hr : ∀ u, r ≠ .error (.unsupported u)) :
    Runs source (quietly p) c (.ok ()) c' := by
  rcases r with ⟨_ | u⟩ | a
  · exact (attempt_none hp).bind (.pure source () c')
  · exact absurd rfl (hr u)
  · exact (attempt_some hp).bind (.pure source () c')

theorem quietly_error {u : Unsupported} (hp : Runs source p c (.error (.unsupported u)) c') :
    Runs source (Stepwise.quietly p) c (.error (.unsupported u)) c' :=
  (attempt_error hp).bind_error

theorem ite_pos {b : Prop} [Decidable b] (hb : b) (hp : Runs source p c r c') :
    Runs source (if b then p else q) c r c' := by
  rw [if_pos hb]
  exact hp

theorem ite_neg {b : Prop} [Decidable b] (hb : ¬b) (hq : Runs source q c r c') :
    Runs source (if b then p else q) c r c' := by
  rw [if_neg hb]
  exact hq

theorem call {rule : Rule} (hp : Runs source p c r c')
    (hgood : Call.Good source ⟨rule, c, c', r.toBool⟩) : Runs source (call rule p) c r c' := by
  have heq : Stepwise.call rule p source c =
      ⟨r, c', (p source c).calls ++ [⟨rule, c, c', r.toBool⟩]⟩ := by
    simp only [Stepwise.call, hp.result, hp.cursor]
  refine ⟨by rw [heq], by rw [heq], ?_⟩
  intro k hk
  rw [heq] at hk
  rcases List.mem_append.1 hk with hk | hk
  · exact hp.calls k hk
  · exact List.mem_singleton.1 hk ▸ hgood

section Loop

variable {body : σ → Step (Option σ)} {x y : σ} {t : Except Refusal Unit}

theorem loop_stop (h : Runs source (body x) c (.ok none) c') :
    Runs source (loop body x) c (.ok ()) c' := by
  have heq : loop body x source c = ⟨.ok (), c', (body x source c).calls⟩ := by
    rw [loop]
    simp only [h.result, h.cursor]
  exact ⟨by rw [heq], by rw [heq], by rw [heq]; exact h.calls⟩

theorem loop_error (h : Runs source (body x) c (.error e) c') :
    Runs source (loop body x) c (.error e) c' := by
  have heq : loop body x source c = ⟨.error e, c', (body x source c).calls⟩ := by
    rw [loop]
    simp only [h.result, h.cursor]
  exact ⟨by rw [heq], by rw [heq], by rw [heq]; exact h.calls⟩

theorem loop_more (h : Runs source (body x) c (.ok (some y)) c')
    (hless : (c'.rest source).length < (c.rest source).length)
    (hmore : Runs source (loop body y) c' t c'') : Runs source (loop body x) c t c'' := by
  have heq : loop body x source c = ⟨(loop body y source c').result,
      (loop body y source c').cursor, (body x source c).calls ++ (loop body y source c').calls⟩ := by
    rw [loop]
    simp only [h.result, h.cursor, if_pos hless]
  refine ⟨by rw [heq, hmore.result], by rw [heq, hmore.cursor], ?_⟩
  intro k hk
  rw [heq] at hk
  rcases List.mem_append.1 hk with hk | hk
  · exact h.calls k hk
  · exact hmore.calls k hk

end Loop

/-! ## Single tokens -/

section Single

variable {sort : Token → Bool} {t : Token} {ts rest : List Token}

theorem peekAt (source : Text) (n : Nat) (c : Cursor) :
    Runs source (peekAt n) c (.ok (c.rest source)[n]?) c :=
  ⟨rfl, rfl, by rintro k ⟨⟩⟩

theorem sees (source : Text) (sort : Token → Bool) (c : Cursor) :
    Runs source (sees sort) c (.ok ((c.rest source).head?.any sort)) c := by
  rw [List.head?_eq_getElem?]
  exact (peekAt source 0 c).bind (.pure source _ c)

theorem sees_true (h : Takes sort (c.rest source) ts) :
    Runs source (Stepwise.sees sort) c (.ok true) c := by
  obtain ⟨t, hrest, ht⟩ := h
  have := sees source sort c
  rw [hrest, List.head?_cons, Option.any_some, ht] at this
  exact this

theorem sees_false (h : Lacks sort (c.rest source)) :
    Runs source (Stepwise.sees sort) c (.ok false) c := by
  have hany : (c.rest source).head?.any sort = false := by
    cases hhead : (c.rest source).head? with
    | none => rfl
    | some t => exact h t hhead
  have := sees source sort c
  rw [hany] at this
  exact this

theorem take (hrest : c.rest source = t :: ts) (ht : sort t = true) :
    Runs source (take sort) c (.ok t) (c.upTo source ts) := by
  have heq : Stepwise.take sort source c = ⟨.ok t, c.moved 1, []⟩ := by
    simp only [Stepwise.take, hrest, ht, if_true]
  have hmoved : c.moved 1 = c.upTo source ts := moved_length [t] hrest (by simp)
  rw [← hmoved]
  exact ⟨by rw [heq], by rw [heq], by rw [heq]; rintro k ⟨⟩⟩

theorem take_none (hrest : Lacks sort (c.rest source)) :
    Runs source (Stepwise.take sort) c (.error .noMatch) c := by
  have heq : Stepwise.take sort source c = ⟨.error .noMatch, c, []⟩ := by
    unfold Stepwise.take
    cases h : c.rest source with
    | nil => rfl
    | cons t ts =>
      have ht : sort t = false := hrest t (by rw [h]; rfl)
      simp only [ht, Bool.false_eq_true, if_false]
  exact ⟨by rw [heq], by rw [heq], by rw [heq]; rintro k ⟨⟩⟩

theorem accept (h : Takes sort (c.rest source) ts) :
    Runs source (accept sort) c (.ok true) (c.upTo source ts) := by
  obtain ⟨t, hrest, ht⟩ := h
  exact (attempt_some (take hrest ht)).bind (.pure source true _)

theorem accept_none (h : Lacks sort (c.rest source)) :
    Runs source (Stepwise.accept sort) c (.ok false) c :=
  (attempt_none (take_none h)).bind (.pure source false c)

theorem expect (h : Takes sort (c.rest source) ts) :
    Runs source (expect sort) c (.ok ()) (c.upTo source ts) := by
  obtain ⟨t, hrest, ht⟩ := h
  exact (take hrest ht).bind (.pure source () _)

theorem expect_none (h : Lacks sort (c.rest source)) :
    Runs source (Stepwise.expect sort) c (.error .noMatch) c :=
  (take_none h).bind_error

end Single

end Runs

end TypedMirror.Stepwise
