import TypedMirror.Proofs.Stepwise.Runs

/-!
# Productions and steps

A step reads what a production gives of the tokens that are left.  Steps that do so are put together
as the productions are.

* `Reads` — a step does what a production does, and where it leaves the cursor without a match;
* `Reads.andThen`, `Reads.expect`, `Reads.column` — one production behind another;
* `reads_columnRef`, `reads_operator`, `reads_condition` — columns and what compares them.
-/

namespace TypedMirror.Stepwise

open Grammar (isIdentifier keyword? punct?)

section Reads

variable {α β : Type} {source : Text} {p : Step α} {f : α → Step β} {c c' : Cursor} {a : α}
  {ts us : List Token} {g : Option (α × List Token)} {k : Option (β × List Token)}
  {write : α → Cursor → Cursor} {put : β → Cursor → Cursor} {back : Cursor → Prop}

/-- The step reads what the production gives, goes on to the tokens it leaves and writes what has
been read; without a match it leaves the cursor at one of `back`. -/
def Reads (source : Text) (p : Step α) (c : Cursor) (g : Option (α × List Token))
    (write : α → Cursor → Cursor) (back : Cursor → Prop) : Prop :=
  match g with
  | some (a, ts) => Runs source p c (.ok a) (write a (c.upTo source ts)) ∧
    (write a (c.upTo source ts)).Sound source
  | none => ∃ c', back c' ∧ Runs source p c (.error .noMatch) c'

/-- Nothing is written. -/
def keep (_ : α) (c : Cursor) : Cursor := c

/-- The cursor may have moved and written more, and it has not gone back. -/
def Strays (source : Text) (c c' : Cursor) : Prop := c.Extends c' ∧ c'.Sound source

theorem Strays.refl (hc : c.At source ts) : Strays source c c := ⟨.refl c, hc.sound⟩

theorem Strays.trans {c'' : Cursor} (h : Strays source c c') (h' : Strays source c' c'') :
    Strays source c c'' := ⟨h.1.trans h'.1, h'.2⟩

theorem Strays.upTo (hc : c.At source ts) (hus : us <:+ ts) :
    Strays source c (c.upTo source us) :=
  ⟨Cursor.extends_upTo source us c, (hc.upTo hus).sound⟩

theorem Reads.of_some (h : Reads source p c g write back) (hg : g = some (a, ts)) :
    Runs source p c (.ok a) (write a (c.upTo source ts)) ∧
      (write a (c.upTo source ts)).Sound source := by
  rw [hg] at h
  exact h

theorem Reads.of_none (h : Reads source p c g write back) (hg : g = none) :
    ∃ c', back c' ∧ Runs source p c (.error .noMatch) c' := by
  rw [hg] at h
  exact h

/-! ### Steps put together -/

theorem Reads.bind_of (hp : Runs source p c (.ok a) c')
    (hsame : ∀ us, c'.upTo source us = c.upTo source us) (h : Reads source (f a) c' k put back) :
    Reads source (p >>= f) c k put back := by
  rcases k with _ | ⟨b, us⟩
  · obtain ⟨c'', hback, h⟩ := h
    exact ⟨c'', hback, hp.bind h⟩
  · obtain ⟨h, hsound⟩ := h
    rw [hsame] at h hsound
    exact ⟨hp.bind h, hsound⟩

theorem Reads.bind (hp : Runs source p c (.ok a) (c.upTo source us))
    (h : Reads source (f a) (c.upTo source us) k put back) : Reads source (p >>= f) c k put back :=
  Reads.bind_of hp (fun _ => rfl) h

theorem Reads.stay (hp : Runs source p c (.ok a) c) (h : Reads source (f a) c k put back) :
    Reads source (p >>= f) c k put back :=
  Reads.bind_of hp (fun _ => rfl) h

theorem Reads.ite_pos {b : Prop} [Decidable b] {q : Step α} (hb : b)
    (h : Reads source p c g write back) : Reads source (if b then p else q) c g write back := by
  rw [if_pos hb]
  exact h

theorem Reads.ite_neg {b : Prop} [Decidable b] {q : Step α} (hb : ¬b)
    (h : Reads source q c g write back) : Reads source (if b then p else q) c g write back := by
  rw [if_neg hb]
  exact h

theorem Reads.call {rule : Rule} (hc : c.Sound source)
    (hback : ∀ c', back c' → Call.Good source ⟨rule, c, c', false⟩)
    (h : Reads source p c g write back) : Reads source (call rule p) c g write back := by
  cases g with
  | none =>
    obtain ⟨c', hc', h⟩ := h
    exact ⟨c', hc', h.call (hback c' hc')⟩
  | some r => exact ⟨h.1.call (Call.good_of_match rule hc h.2), h.2⟩

/-- The rule goes all the way back without a match. -/
theorem Reads.call_back {rule : Rule} (hc : c.At source ts)
    (h : Reads source p c g write (· = c)) :
    Reads source (Stepwise.call rule p) c g write (· = c) := by
  refine Reads.call hc.sound ?_ h
  rintro _ rfl
  exact Call.good_of_eq rule hc.sound false

/-- The rule need not go back. -/
theorem Reads.call_strays {rule : Rule} (hrule : rule.restores = false) (hc : c.At source ts)
    (h : Reads source p c g write (Strays source c)) :
    Reads source (Stepwise.call rule p) c g write (Strays source c) :=
  Reads.call hc.sound
    (fun _ hstrays => Call.good_of_free hrule hc.sound hstrays.2 false) h

/-- One production behind another. -/
theorem Reads.andThen {behind : α × List Token → Option (β × List Token)} {back' : Cursor → Prop}
    (hc : c.At source ts) (hp : Reads source p c g keep back') (hback : ∀ c', back' c' → back c')
    (hsuffix : ∀ {a us}, g = some (a, us) → us <:+ ts)
    (hf : ∀ {a us}, us <:+ ts → (c.upTo source us).At source us →
      Reads source (f a) (c.upTo source us) (behind (a, us)) put back) :
    Reads source (p >>= f) c (g.bind behind) put back := by
  rcases g with _ | ⟨a, us⟩
  · obtain ⟨c', hc', hp⟩ := hp
    exact ⟨c', hback c' hc', hp.bind_error⟩
  · exact Reads.bind hp.1 (hf (hsuffix rfl) (hc.upTo (hsuffix rfl)))

theorem reads_expect {read : List Token → Option (List Token)} {sort : Token → Bool}
    (hc : c.At source ts) (htests : Tests read sort) (hback : back c) :
    Reads source (expect sort) c ((read ts).map fun us => ((), us)) keep back := by
  cases hread : read ts with
  | none => exact ⟨c, hback, .expect_none (htests.lacks_at hc hread)⟩
  | some us =>
    exact ⟨.expect (htests.takes_at hc hread), (hc.upTo (htests.takes hread).suffix).sound⟩

/-- A production behind a single token. -/
theorem Reads.expect {read : List Token → Option (List Token)} {sort : Token → Bool}
    {behind : List Token → Option (β × List Token)} {f : Unit → Step β} (hc : c.At source ts)
    (htests : Tests read sort) (hback : back c)
    (hf : ∀ {us}, us <:+ ts → (c.upTo source us).At source us →
      Reads source (f ()) (c.upTo source us) (behind us) put back) :
    Reads source (expect sort >>= f) c ((read ts).bind behind) put back := by
  have heq : (read ts).bind behind =
      ((read ts).map fun us => ((), us)).bind fun r => behind r.2 := by
    rw [Option.bind_map]
    rfl
  rw [heq]
  refine Reads.andThen hc (reads_expect hc htests rfl) (by rintro _ rfl; exact hback) ?_ hf
  intro a us hus
  obtain ⟨vs, hvs, heq⟩ := Option.map_eq_some_iff.1 hus
  cases heq
  exact (htests.takes hvs).suffix

end Reads

section Phrases

variable {source : Text} {c : Cursor} {ts us vs : List Token}

/-! ## Columns -/

/-- A column, with where it starts and where it ends. -/
def withPlace (r : ColumnRef) : ColumnRef × Nat × Nat := (r, r.position, r.position + r.raw.length)

theorem reads_columnRef (hc : c.At source ts) : Reads source columnRef c
    ((Grammar.columnRef source ts).map fun p => (withPlace p.1, p.2)) keep (· = c) := by
  refine Reads.call_back hc (Reads.stay (.current source c) ?_)
  obtain ⟨done, hdone⟩ := Cursor.rest_suffix source c
  have hrest := hc.rest
  cases ts with
  | nil => exact ⟨c, rfl, (Runs.take_none (lacks_nil hc)).bind_error⟩
  | cons t us =>
    have hus := hc.upTo (List.suffix_cons t us)
    rw [hrest] at hdone
    rw [Grammar.columnRef]
    by_cases hid : isIdentifier t = true
    · rw [if_pos hid]
      refine Reads.bind (.take hrest hid) ?_
      cases hdot : punct? '.' us with
      | none =>
        have hlacks := (tests_punct? '.').lacks_at hus hdot
        exact ⟨(Runs.sees_false hlacks).bind (.ite_neg (by simp) (.pure source _ _)), hus.sound⟩
      | some vs =>
        obtain ⟨dot, rfl, hpunct⟩ := Grammar.exists_of_punct? hdot
        refine Reads.stay (.sees_true ⟨dot, hus.rest, hpunct⟩) ?_
        refine Reads.stay (.peekAt source 1 _) ?_
        have hback : Runs source
            (moveTo c.position >>= fun _ => (refuse : Step (ColumnRef × Nat × Nat)))
            (c.upTo source (dot :: vs)) (.error .noMatch) c :=
          (Runs.change source _ _).bind (.refuse source c)
        rw [hus.rest]
        cases vs with
        | nil => exact ⟨c, rfl, hback⟩
        | cons n vs =>
          by_cases hn : n.kind = .word ∨ n.kind = .quotedName
          · have hfilter : (dot :: n :: vs)[1]?.filter
                (fun t => t.kind = .word || t.kind = .quotedName) = some n :=
              if_pos (by simpa using hn)
            have hmoved : (c.upTo source (dot :: n :: vs)).moved 2 = c.upTo source vs :=
              Cursor.moved_length [dot, n] hus.rest (by simp)
            have hstop : t.start + (source.slice t.start n.stop).length = n.stop :=
              stop_of_read [dot] hdone.symm
            have hmove := Runs.change source (·.moved 2) (c.upTo source (dot :: n :: vs))
            rw [hmoved] at hmove
            dsimp only
            rw [hfilter, if_pos hn, Option.map_some, withPlace]
            dsimp only
            rw [hstop]
            exact ⟨hmove.bind ((Runs.sourceText source _).bind (.pure source _ _)),
              (hc.upTo (List.suffix_append [t, dot, n] vs)).sound⟩
          · have hfilter : (dot :: n :: vs)[1]?.filter
                (fun t => t.kind = .word || t.kind = .quotedName) = none :=
              if_neg (by simpa using hn)
            dsimp only
            rw [hfilter, if_neg hn]
            exact ⟨c, rfl, hback⟩
    · rw [if_neg hid]
      exact ⟨c, rfl, (Runs.take_none (lacks_cons hc hid)).bind_error⟩

/-- A production behind a column. -/
theorem Reads.column {β : Type} {f : ColumnRef × Nat × Nat → Step β} {put : β → Cursor → Cursor}
    {behind : ColumnRef × List Token → Option (β × List Token)} {back : Cursor → Prop}
    (hc : c.At source ts) (hback : back c)
    (hf : ∀ {r us}, us <:+ ts → (c.upTo source us).At source us →
      Reads source (f (withPlace r)) (c.upTo source us) (behind (r, us)) put back) :
    Reads source (columnRef >>= f) c ((Grammar.columnRef source ts).bind behind) put back := by
  have hreads := reads_columnRef hc
  cases hcolumn : Grammar.columnRef source ts with
  | none =>
    rw [hcolumn] at hreads
    obtain ⟨_, rfl, hruns⟩ := hreads
    exact ⟨_, hback, hruns.bind_error⟩
  | some r =>
    rw [hcolumn] at hreads
    have hus := (Grammar.advances_of_columnRef source hcolumn).1
    exact Reads.bind hreads.1 (hf hus (hc.upTo hus))

/-! ## Operators -/

/-- The operator that has been read in front of `ts`, if it may stand there. -/
def allowed (op : Option Operator) (ts : List Token) : Option (Operator × List Token) :=
  match op with
  | some o => if (o = .isIn || o = .notIn) && !Grammar.opensList ts then none else some (o, ts)
  | none => none

theorem allowed_ofSymbol? (symbol : Text) (ts : List Token) :
    allowed (Operator.ofSymbol? symbol) ts = (Operator.ofSymbol? symbol).map (·, ts) := by
  have hne : ∀ o ∈ Operator.ofSymbol? symbol, (o = .isIn || o = .notIn) = false := by
    intro o ho
    obtain ⟨p, hp, hsome⟩ := List.exists_of_findSome?_eq_some ho
    split at hsome
    · rename_i hsymbol
      cases hsome
      clear ho hsymbol
      revert p
      decide
    · cases hsome
  cases ho : Operator.ofSymbol? symbol with
  | none => rfl
  | some o => simp [allowed, hne o ho]

theorem runs_operatorFrom (allowIn : Bool) (t : Token) (hc : c.At source ts) : ∃ op us,
    us <:+ ts ∧ Runs source (operatorFrom allowIn t) c (.ok op) (c.upTo source us) ∧
      Grammar.operator allowIn (t :: ts) = allowed op us := by
  have hstay : ∀ {op : Option Operator}, Runs source (pure op : Step _) c (.ok op)
      (c.upTo source ts) := by
    intro op
    rw [hc.upTo_self]
    exact .pure source op c
  have htakes : ∀ {word : String} {us : List Token}, keyword? word ts = some us →
      Runs source (acceptKeyword word) c (.ok true) (c.upTo source us) :=
    fun h => .accept ((tests_keyword? _).takes_at hc h)
  have hlacks : ∀ {word : String}, keyword? word ts = none →
      Runs source (acceptKeyword word) c (.ok false) c :=
    fun h => .accept_none ((tests_keyword? _).lacks_at hc h)
  rw [operatorFrom, Grammar.operator]
  by_cases hop : t.kind = .operator
  · refine ⟨Operator.ofSymbol? t.text, _, List.suffix_refl _, .ite_pos hop hstay, ?_⟩
    rw [if_pos hop, allowed_ofSymbol?]
  rw [if_neg hop, if_neg hop]
  by_cases hlike : t.isKeyword "LIKE" = true
  · refine ⟨some .like, _, List.suffix_refl _, .ite_pos hlike hstay, ?_⟩
    rw [if_pos hlike]
    rfl
  rw [if_neg hlike, if_neg hlike]
  by_cases his : t.isKeyword "IS" = true
  · rw [if_pos his, if_pos his]
    cases hnot : keyword? "NOT" ts with
    | some us =>
      exact ⟨some .isNot, us, (Grammar.advances_of_keyword? hnot).1,
        (htakes hnot).bind (.ite_pos rfl (.pure source _ _)), rfl⟩
    | none =>
      exact ⟨some .is, _, List.suffix_refl _, (hlacks hnot).bind (.ite_neg (by simp) hstay), rfl⟩
  rw [if_neg his, if_neg his]
  by_cases hnot : t.isKeyword "NOT" = true
  · rw [if_pos hnot, if_pos hnot]
    cases hlike' : keyword? "LIKE" ts with
    | some us =>
      exact ⟨some .notLike, us, (Grammar.advances_of_keyword? hlike').1,
        (htakes hlike').bind (.ite_pos rfl (.pure source _ _)), rfl⟩
    | none =>
      cases allowIn with
      | false =>
        refine ⟨none, _, List.suffix_refl _,
          (hlacks hlike').bind (.ite_neg (by simp) (.ite_neg (by simp) hstay)), ?_⟩
        cases keyword? "IN" ts with
        | none => rfl
        | some us => rfl
      | true =>
        cases hin : keyword? "IN" ts with
        | some us =>
          refine ⟨some .notIn, us, (Grammar.advances_of_keyword? hin).1,
            (hlacks hlike').bind (.ite_neg (by simp) (.ite_pos rfl
              ((htakes hin).bind (.ite_pos rfl (.pure source _ _))))), ?_⟩
          cases hopens : Grammar.opensList us with
          | true => simp [allowed, hopens]
          | false => simp [allowed, hopens]
        | none =>
          exact ⟨none, _, List.suffix_refl _,
            (hlacks hlike').bind (.ite_neg (by simp) (.ite_pos rfl
              ((hlacks hin).bind (.ite_neg (by simp) hstay)))), rfl⟩
  rw [if_neg hnot, if_neg hnot]
  by_cases hin : (allowIn && t.isKeyword "IN") = true
  · refine ⟨some .isIn, _, List.suffix_refl _, .ite_pos hin hstay, ?_⟩
    rw [Bool.and_eq_true] at hin
    cases hopens : Grammar.opensList ts with
    | true => simp [allowed, hopens, hin]
    | false => simp [allowed, hopens]
  · refine ⟨none, _, List.suffix_refl _, .ite_neg hin hstay, ?_⟩
    have hnone : (t.isKeyword "IN" && allowIn && Grammar.opensList ts) ≠ true := by
      rw [Bool.and_comm allowIn, Bool.not_eq_true] at hin
      rw [hin]
      simp
    rw [if_neg hnone]
    rfl

theorem runs_sees {read : List Token → Option (List Token)} {sort : Token → Bool}
    (hc : c.At source ts) (htests : Tests read sort) :
    Runs source (sees sort) c (.ok (read ts).isSome) c := by
  rw [htests.isSome_eq, ← hc.rest]
  exact .sees source sort c

theorem reads_operator (allowIn : Bool) (hc : c.At source ts) :
    Reads source (operator allowIn) c (Grammar.operator allowIn ts) keep (· = c) := by
  refine Reads.call_back hc (Reads.stay (.current source c) ?_)
  have hrest := hc.rest
  cases ts with
  | nil => exact ⟨c, rfl, (Runs.take_none (lacks_nil hc)).bind_error⟩
  | cons t us =>
    have hus := hc.upTo (List.suffix_cons t us)
    obtain ⟨op, vs, hvs, hruns, heq⟩ := runs_operatorFrom allowIn t hus
    have hnext : Runs source next c (.ok t) (c.upTo source us) := .take hrest rfl
    refine Reads.bind hnext ?_
    refine Reads.bind hruns (Reads.stay (runs_sees (hus.upTo hvs) (tests_punct? '(')) ?_)
    rw [heq]
    have hback : Runs source (moveTo c.position >>= fun _ => (refuse : Step Operator))
        (c.upTo source vs) (.error .noMatch) c := (Runs.change source _ _).bind (.refuse source c)
    cases op with
    | none => exact ⟨c, rfl, hback⟩
    | some o =>
      by_cases hforbidden : ((o = .isIn || o = .notIn) && !Grammar.opensList vs) = true
      · have hnone : allowed (some o) vs = none := if_pos hforbidden
        rw [hnone]
        exact ⟨c, rfl, Runs.ite_pos hforbidden hback⟩
      · have hsome : allowed (some o) vs = some (o, vs) := if_neg hforbidden
        rw [hsome]
        exact ⟨Runs.ite_neg hforbidden (.pure source _ _), (hus.upTo hvs).sound⟩

/-! ## Comparisons -/

theorem reads_condition (hc : c.At source ts) :
    Reads source condition c (Grammar.comparison source ts) keep (Strays source c) := by
  refine Reads.call_strays rfl hc ?_
  unfold Grammar.comparison
  refine Reads.column hc (.refl hc) fun {l us} hus hc₁ => ?_
  have hstrays : Strays source c (c.upTo source us) := .upTo hc hus
  refine Reads.andThen hc₁ (reads_operator false hc₁) (by rintro _ rfl; exact hstrays)
    (fun h => (Grammar.advances_of_operator h).1) fun {o vs} hvs hc₂ => ?_
  refine Reads.column hc₂ (hstrays.trans (.upTo hc₁ hvs)) fun {r ts} hts hc₃ => ?_
  exact ⟨Runs.pure source _ _, hc₃.sound⟩

end Phrases

end TypedMirror.Stepwise
