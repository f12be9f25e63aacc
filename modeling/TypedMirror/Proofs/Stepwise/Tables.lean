import TypedMirror.Proofs.Stepwise.Phrases

/-!
# Tables and joins

A table is written down when its name has been read, and a join that turns out not to be one takes
its table off again.

* `reads_tableRef`, `reads_join` — a table and a join, which leave nothing behind without a match;
* `Reads.table` — what stands behind a table, which stays written down meanwhile.
-/

namespace TypedMirror.Stepwise

open Grammar (isIdentifier keyword? punct?)
open Cursor (recorded)

variable {source : Text} {c : Cursor} {ts us vs : List Token}

/-! ## Tables -/

theorem runs_accept {read : List Token → Option (List Token)} {sort : Token → Bool}
    (hc : c.At source ts) (htests : Tests read sort) :
    Runs source (accept sort) c (.ok (read ts).isSome) (c.upTo source ((read ts).getD ts)) := by
  cases hread : read ts with
  | none =>
    rw [Option.getD_none, hc.upTo_self]
    exact Runs.accept_none (htests.lacks_at hc hread)
  | some us => exact Runs.accept (htests.takes_at hc hread)

/-- One token or another one, whichever is there first. -/
theorem runs_acceptEither {read : List Token → Option (List Token)} {sort : Token → Bool}
    {p : Step Bool} {other : Option (List Token)} (hc : c.At source ts) (htests : Tests read sort)
    (hp : Runs source p c (.ok other.isSome) (c.upTo source (other.getD ts))) :
    Runs source (do if ← accept sort then return true else p) c (.ok (read ts <|> other).isSome)
      (c.upTo source ((read ts <|> other).getD ts)) := by
  have haccept := runs_accept hc htests
  cases hread : read ts with
  | some us =>
    rw [hread] at haccept
    exact haccept.bind (.ite_pos rfl (.pure source true _))
  | none =>
    rw [hread, Option.getD_none, hc.upTo_self] at haccept
    exact haccept.bind (.ite_neg (by simp) hp)

theorem Tests.getD_suffix {read : List Token → Option (List Token)} {sort : Token → Bool}
    (htests : Tests read sort) (ts : List Token) : (read ts).getD ts <:+ ts := by
  cases hread : read ts with
  | none => exact List.suffix_refl ts
  | some us => exact (htests.takes hread).suffix

theorem runs_doWhen {p : Step Unit} {c' : Cursor} (b : Bool)
    (htrue : b = true → Runs source p c (.ok ()) c') (hfalse : b = false → c = c') :
    Runs source (doWhen b p) c (.ok ()) c' := by
  cases b with
  | true => exact .ite_pos rfl (htrue rfl)
  | false =>
    rw [← hfalse rfl]
    exact .ite_neg (by simp) (.pure source () c)

theorem runs_readAlias (hc : c.At source ts) : Runs source readAlias c
    (.ok (Grammar.readAlias ts).1) (c.upTo source (Grammar.readAlias ts).2) := by
  have htests := tests_keyword? "AS"
  have has := hc.upTo (htests.getD_suffix ts)
  refine (Runs.current source c).bind ((runs_accept hc htests).bind ?_)
  have hback : Runs source (doWhen (keyword? "AS" ts).isSome (moveTo c.position) >>= fun _ =>
      (pure none : Step (Option Text))) (c.upTo source ((keyword? "AS" ts).getD ts)) (.ok none)
        c := by
    refine (runs_doWhen _ (fun _ => .change source _ _) fun hnone => ?_).bind (.pure source none c)
    rw [Option.isSome_eq_false_iff, Option.isNone_iff_eq_none] at hnone
    rw [hnone, Option.getD_none, hc.upTo_self]
  unfold Grammar.readAlias
  generalize (keyword? "AS" ts).getD ts = us at has hback
  cases us with
  | nil =>
    have hnone : Runs source (take isIdentifier) (c.upTo source []) (.error .noMatch)
        (c.upTo source []) := .take_none (lacks_nil has)
    rw [hc.upTo_self]
    exact hnone.attempt_none.bind hback
  | cons t us =>
    dsimp only
    by_cases hid : isIdentifier t = true
    · rw [if_pos hid]
      exact (Runs.take has.rest hid).attempt_some.bind (.pure source _ _)
    · have hlacks := lacks_cons has hid
      rw [if_neg hid, hc.upTo_self]
      exact (Runs.take_none hlacks).attempt_none.bind hback

theorem reads_tableRef (hc : c.At source ts) (hp : c.predicates = []) :
    Reads source tableRef c (Grammar.tableRef ts) recorded (· = c) := by
  refine Reads.call_back hc (Reads.stay (.current source c) ?_)
  have hrest := hc.rest
  cases ts with
  | nil => exact ⟨c, rfl, (Runs.take_none (lacks_nil hc)).bind_error⟩
  | cons t us =>
    have hus := hc.upTo (List.suffix_cons t us)
    rw [Grammar.tableRef]
    by_cases hid : isIdentifier t = true
    · refine Reads.bind (.take hrest hid) ?_
      cases hdot : punct? '.' us with
      | none =>
        refine Reads.stay (.sees_false ((tests_punct? '.').lacks_at hus hdot)) ?_
        have hsome : (isIdentifier t && (none : Option (List Token)).isNone) = true := by
          rw [hid]
          rfl
        rw [if_pos hsome]
        obtain ⟨heq, hsound⟩ := hc.recorded (x := ⟨t.name, (Grammar.readAlias us).1,
          Grammar.namePosition t⟩) hid rfl rfl hp (Grammar.readAlias_suffix us)
        have htable := Runs.change source (·.withTable t ⟨t.name, (Grammar.readAlias us).1,
          Grammar.namePosition t⟩) (c.upTo source (Grammar.readAlias us).2)
        rw [heq] at htable
        exact ⟨.ite_neg (by simp) ((runs_readAlias hus).bind (htable.bind (.pure source _ _))),
          hsound⟩
      | some vs =>
        have hnone : ¬(isIdentifier t && (some vs).isNone) = true := by simp
        have htakes := (tests_punct? '.').takes_at hus hdot
        have hrewind := Runs.rewind source (Cursor.extends_upTo source us c)
        rw [if_neg hnone]
        exact ⟨c, rfl,
          (Runs.sees_true htakes).bind (.ite_pos rfl (hrewind.bind (.refuse source c)))⟩
    · have hnone : ¬(isIdentifier t && (punct? '.' us).isNone) = true := by simp [hid]
      rw [if_neg hnone]
      exact ⟨c, rfl, (Runs.take_none (lacks_cons hc hid)).bind_error⟩

/-! ## Joins -/

theorem joinKind_cons (t : Token) (us : List Token) : Grammar.joinKind (t :: us) =
    if t.isKeyword "JOIN" then some (.inner, us) else
      (joinWord? t).bind fun kind => (keyword? "JOIN" (if kind = .left || kind = .right then
        (keyword? "OUTER" us).getD us else us)).map (kind, ·) := by
  rw [Grammar.joinKind]
  unfold joinWord? joinWords
  simp only [List.findSome?_cons]
  by_cases hleft : t.isKeyword "LEFT" = true
  · simp [hleft]
  by_cases hright : t.isKeyword "RIGHT" = true
  · simp [hleft, hright]
  by_cases hinner : t.isKeyword "INNER" = true
  · simp [hleft, hright, hinner]
  by_cases houter : t.isKeyword "OUTER" = true
  · simp [hleft, hright, hinner, houter]
  by_cases hcross : t.isKeyword "CROSS" = true
  · simp [hleft, hright, hinner, houter, hcross]
  · simp [hleft, hright, hinner, houter, hcross]

theorem reads_joinKind (hc : c.At source ts) :
    Reads source joinKind c (Grammar.joinKind ts) keep (Strays source c) := by
  refine Reads.call_strays rfl hc ?_
  have hrest := hc.rest
  cases ts with
  | nil =>
    exact ⟨c, .refl hc, (Runs.accept_none (lacks_nil hc)).bind (.ite_neg (by simp)
      (Runs.take_none (lacks_nil hc)).bind_error)⟩
  | cons t us =>
    have hus := List.suffix_cons t us
    rw [joinKind_cons]
    by_cases hjoin : t.isKeyword "JOIN" = true
    · rw [if_pos hjoin]
      exact ⟨(Runs.accept ⟨t, hrest, hjoin⟩).bind (.ite_pos rfl (.pure source _ _)),
        (hc.upTo hus).sound⟩
    rw [if_neg hjoin]
    refine Reads.stay (.accept_none (lacks_cons hc hjoin)) ?_
    cases hword : joinWord? t with
    | none =>
      have hlacks : Lacks (fun t => (joinWord? t).isSome) (c.rest source) :=
        lacks_cons hc (by simp [hword])
      exact ⟨c, .refl hc, .ite_neg (by simp) (Runs.take_none hlacks).bind_error⟩
    | some kind =>
      have htests := tests_keyword? "OUTER"
      have hvs : (if kind = .left || kind = .right then (keyword? "OUTER" us).getD us else us) <:+
          us := by
        split
        · exact htests.getD_suffix us
        · exact List.suffix_refl us
      have houter : Runs source (doWhen (kind = .left || kind = .right) (skip (·.isKeyword "OUTER")))
          (c.upTo source us) (.ok ()) (c.upTo source
            (if kind = .left || kind = .right then (keyword? "OUTER" us).getD us else us)) := by
        refine runs_doWhen _ (fun htrue => ?_) fun hfalse => ?_
        · rw [if_pos htrue]
          exact (runs_accept (hc.upTo hus) htests).bind (.pure source () _)
        · rw [if_neg (Bool.eq_false_iff.1 hfalse)]
      rw [Option.bind_some, Option.map_eq_bind]
      refine Reads.ite_neg (by simp) (Reads.bind (.take hrest (by rw [hword]; rfl)) ?_)
      rw [hword, Option.getD_some]
      refine Reads.bind houter ?_
      refine Reads.expect ((hc.upTo hus).upTo hvs) (tests_keyword? "JOIN") (.upTo hc (hvs.trans hus))
        fun {ws} hws hc₂ => ?_
      exact ⟨.pure source kind _, hc₂.sound⟩

theorem reads_joinCondition (hc : c.At source ts) :
    Reads source joinCondition c (Grammar.joinCondition source ts) keep (Strays source c) := by
  unfold Grammar.joinCondition
  have haccept := runs_accept hc (tests_punct? '(')
  cases hparen : punct? '(' ts with
  | none =>
    rw [hparen, Option.getD_none, hc.upTo_self] at haccept
    refine Reads.stay haccept ?_
    have hcondition := reads_condition hc
    cases hcomparison : Grammar.comparison source ts with
    | none =>
      obtain ⟨c', hc', hruns⟩ := hcondition.of_none hcomparison
      exact ⟨c', hc', hruns.bind_error⟩
    | some on =>
      obtain ⟨hruns, hsound⟩ := hcondition.of_some hcomparison
      exact ⟨hruns.bind ((Runs.pure source () _).bind (.pure source _ _)), hsound⟩
  | some inner =>
    have hinner := (Grammar.advances_of_punct? hparen).1
    rw [hparen] at haccept
    refine Reads.bind haccept ?_
    have hc₁ := hc.upTo hinner
    refine Reads.andThen hc₁ (reads_condition hc₁) (fun c' h => (Strays.upTo hc hinner).trans h)
      (fun h => (Grammar.advances_of_comparison h).1) fun {on us} hus hc₂ => ?_
    refine Reads.expect hc₂ (tests_punct? ')') (.upTo hc (hus.trans hinner)) fun {ws} hws hc₃ => ?_
    exact ⟨.pure source on _, hc₃.sound⟩

/-- A production behind a table. -/
theorem Reads.table {β : Type} {f : TableRef → Step β} {put : β → Cursor → Cursor}
    {behind : TableRef × List Token → Option (β × List Token)} {back : Cursor → Prop}
    (hc : c.At source ts) (hp : c.predicates = []) (hback : back c)
    (hput : ∀ {x us b ws}, behind (x, us) = some (b, ws) → ∀ c, put b c = recorded x c)
    (hf : ∀ {x us}, us <:+ ts → ((c.upTo source us).recorded x).At source us →
      Reads source (f x) ((c.upTo source us).recorded x) (behind (x, us)) keep back) :
    Reads source (tableRef >>= f) c ((Grammar.tableRef ts).bind behind) put back := by
  have hreads := reads_tableRef hc hp
  cases htable : Grammar.tableRef ts with
  | none =>
    obtain ⟨_, rfl, hruns⟩ := hreads.of_none htable
    exact ⟨_, hback, hruns.bind_error⟩
  | some r =>
    obtain ⟨x, us⟩ := r
    obtain ⟨hruns, hsound⟩ := hreads.of_some htable
    have hus := (Grammar.advances_of_tableRef htable).1
    have hmore := hf (x := x) hus ⟨hsound, (hc.upTo hus).rest⟩
    rw [Option.bind_some]
    cases hbehind : behind (x, us) with
    | none =>
      obtain ⟨c', hc', hmore⟩ := hmore.of_none hbehind
      exact ⟨c', hc', hruns.bind hmore⟩
    | some r =>
      obtain ⟨b, ws⟩ := r
      obtain ⟨hmore, hsound⟩ := hmore.of_some hbehind
      have heq : put b (c.upTo source ws) = (c.upTo source ws).recorded x := hput hbehind _
      refine ⟨?_, ?_⟩
      · rw [heq]
        exact hruns.bind hmore
      · rw [heq]
        exact hsound

theorem reads_joinBody (hc : c.At source ts) (hp : c.predicates = []) :
    Reads source joinBody c (Grammar.join source ts) (fun j => recorded j.table)
      (Strays source c) := by
  refine Reads.call_strays rfl hc ?_
  unfold Grammar.join
  have hkind := reads_joinKind hc
  cases hk : Grammar.joinKind ts with
  | none =>
    obtain ⟨c', hc', hruns⟩ := hkind.of_none hk
    exact ⟨c', hc', hruns.bind_error⟩
  | some r =>
    obtain ⟨kind, us⟩ := r
    have hus := (Grammar.advances_of_joinKind hk).1
    have hc₁ := hc.upTo hus
    refine Reads.bind (hkind.of_some hk).1 ?_
    refine Reads.table hc₁ hp (.upTo hc hus) ?_ fun {x vs} hvs hc₂ => ?_
    · intro x vs j ws hj c
      simp only [Option.bind_eq_bind, Option.bind_eq_some_iff, Option.some.injEq, Prod.mk.injEq] at hj
      obtain ⟨-, -, -, -, rfl, -⟩ := hj
      rfl
    -- the table stays written down until the join is given up
    have hstrays : Strays source c ((c.upTo source vs).recorded x) :=
      ⟨(Cursor.extends_upTo source vs c).trans (Cursor.extends_recorded _ x), hc₂.sound⟩
    refine Reads.expect hc₂ (tests_keyword? "ON") hstrays fun {ws} hws hc₃ => ?_
    have hstrays₃ := hstrays.trans (.upTo hc₂ hws)
    refine Reads.andThen hc₃ (reads_joinCondition hc₃) (fun c' h => hstrays₃.trans h)
      (fun h => (Grammar.advances_of_joinCondition h).1) fun {on zs} hzs hc₄ => ?_
    exact ⟨.pure source _ _, hc₄.sound⟩

theorem reads_join (hc : c.At source ts) (hp : c.predicates = []) :
    Reads source join c (Grammar.join source ts) (fun j => recorded j.table) (· = c) := by
  refine Reads.call_back hc (Reads.stay (.current source c) ?_)
  have hbody := reads_joinBody hc hp
  cases hjoin : Grammar.join source ts with
  | none =>
    obtain ⟨c', ⟨hextends, -⟩, hruns⟩ := hbody.of_none hjoin
    have hrewind := Runs.rewind source hextends
    exact ⟨c, rfl, hruns.attempt_none.bind (hrewind.bind (.refuse source c))⟩
  | some r =>
    obtain ⟨j, us⟩ := r
    obtain ⟨hruns, hsound⟩ := hbody.of_some hjoin
    exact ⟨hruns.attempt_some.bind (.pure source j _), hsound⟩

end TypedMirror.Stepwise
