import TypedMirror.Proofs.Stepwise.Lists

/-!
# Clauses

The clauses of a statement other than the WHERE clause: what an update sets, and what sorts and
limits.

* `reads_setClause` — the assignments of an update, with the way back if one of them is spoilt;
* `runs_tailClauses` — the clauses that sort and limit, up to the first of them without its shape.
-/

namespace TypedMirror.Stepwise

open Grammar (keyword? punct? number? operator? afterClauses commaList? isAssigned)

variable {source : Text} {c : Cursor} {ts us vs : List Token}

/-! ## Assignments -/

/-- The tokens after one that may be assigned. -/
def assigned? : List Token → Option (List Token)
  | t :: ts => if isAssigned t then some ts else none
  | [] => none

theorem tests_assigned? : Tests assigned? isAssigned := ⟨rfl, fun _ _ => rfl⟩

theorem map_assignment (source : Text) (ts : List Token) :
    (Grammar.assignment source ts).map (fun r => ((), r.2)) =
      (Grammar.columnRef source ts).bind fun r => (operator? "=" r.2).bind fun us =>
        (assigned? us).map fun vs => ((), vs) := by
  unfold Grammar.assignment
  cases Grammar.columnRef source ts with
  | none => rfl
  | some r =>
    simp only [Option.bind_eq_bind, Option.bind_some]
    cases operator? "=" r.2 with
    | none => rfl
    | some us =>
      cases us with
      | nil => rfl
      | cons t us =>
        simp only [Option.bind_some, assigned?]
        split
        · rfl
        · rfl

theorem reads_assignment (hc : c.At source ts) : Reads source assignment c
    (((Grammar.assignments source).read ts).map fun r => ((), r.2)) keep (Strays source c) := by
  show Reads source assignment c ((Grammar.assignment source ts).map fun r => ((), r.2)) keep
    (Strays source c)
  rw [map_assignment]
  refine Reads.column hc (.refl hc) fun {r us} hus hc₁ => ?_
  have hstrays : Strays source c (c.upTo source us) := .upTo hc hus
  refine Reads.expect hc₁ (tests_operator? "=") hstrays fun {vs} hvs hc₂ => ?_
  exact reads_expect hc₂ tests_assigned? (.upTo hc (hvs.trans hus))

/-- A list that is given up takes the cursor back to where its clause started. -/
theorem reads_orRewind {c' : Cursor} {p : Step Unit} {list : Option (List Token)}
    (hextends : c.Extends c')
    (hp : Reads source p c' (list.map fun us => ((), us)) keep (Strays source c')) :
    Reads source (attempt p >>= fun
      | some _ => return ()
      | none => do
        rewind c.mark
        refuse) c' (list.map fun us => ((), us)) keep (· = c) := by
  cases list with
  | none =>
    obtain ⟨c'', ⟨hextends', -⟩, hruns⟩ := hp
    have hrewind := Runs.rewind source (hextends.trans hextends')
    exact ⟨c, rfl, hruns.attempt_none.bind (hrewind.bind (.refuse source c))⟩
  | some vs =>
    obtain ⟨hruns, hsound⟩ := hp
    exact ⟨hruns.attempt_some.bind (.pure source () _), hsound⟩

theorem reads_setClause (hc : c.At source ts) : Reads source setClause c
    ((Grammar.setClause source ts).map fun us => ((), us)) keep (· = c) := by
  refine Reads.call_back hc (Reads.stay (.current source c) ?_)
  unfold Grammar.setClause
  rw [Option.map_bind]
  refine Reads.expect hc (tests_keyword? "SET") rfl fun {us} hus hc₁ => ?_
  exact reads_orRewind (Cursor.extends_upTo source us c)
    (reads_commaList (Grammar.assignments source) reads_assignment hc₁)

/-! ## Sorting -/

theorem reads_sortKey (hc : c.At source ts) : Reads source sortKey c
    ((Grammar.sortKey source ts).map fun us => ((), us)) keep (· = c) := by
  unfold Grammar.sortKey
  have haccept := runs_accept hc tests_number?
  cases hnumber : number? ts with
  | some us =>
    rw [hnumber] at haccept
    exact ⟨haccept.bind (.ite_pos rfl (.pure source () _)),
      (hc.upTo (Grammar.advances_of_number? hnumber).1).sound⟩
  | none =>
    rw [hnumber, Option.getD_none, hc.upTo_self] at haccept
    refine Reads.stay haccept (Reads.ite_neg (by simp) ?_)
    dsimp only
    rw [Option.map_map, Option.map_eq_bind]
    exact Reads.column hc rfl fun {r us} hus hc₁ => ⟨.pure source () _, hc₁.sound⟩

theorem runs_direction (hc : c.At source ts) :
    Runs source direction c (.ok ()) (c.upTo source (Grammar.direction ts)) := by
  unfold Grammar.direction
  have haccept := runs_accept hc (tests_keyword? "ASC")
  cases hasc : keyword? "ASC" ts with
  | some us =>
    rw [hasc] at haccept
    exact haccept.bind (.ite_pos rfl (.pure source () _))
  | none =>
    rw [hasc, Option.getD_none, hc.upTo_self] at haccept
    exact haccept.bind (.ite_neg (by simp)
      ((runs_accept hc (tests_keyword? "DESC")).bind (.pure source () _)))

theorem reads_sortItem (directed : Bool) (hc : c.At source ts) : Reads source (sortItem directed) c
    (((Grammar.sortItems source directed).read ts).map fun r => ((), r.2)) keep
      (Strays source c) := by
  show Reads source (sortItem directed) c
    ((Grammar.sortItem source directed ts).map fun r => ((), r.2)) keep (Strays source c)
  have hkey := reads_sortKey hc
  unfold Grammar.sortItem
  cases hsort : Grammar.sortKey source ts with
  | none =>
    obtain ⟨_, rfl, hruns⟩ := hkey.of_none (by rw [hsort]; rfl)
    exact ⟨_, .refl hc, hruns.bind_error⟩
  | some us =>
    rw [hsort] at hkey
    obtain ⟨hruns, -⟩ := hkey
    have hus := (Grammar.advances_of_sortKey source hsort).1
    have hc₁ := hc.upTo hus
    cases directed with
    | true =>
      exact ⟨hruns.bind (runs_direction hc₁), (hc₁.upTo (Grammar.direction_suffix us)).sound⟩
    | false => exact ⟨hruns.bind (.pure source () _), hc₁.sound⟩

theorem reads_sortList (directed : Bool) (hc : c.At source ts) : Reads source (sortList directed) c
    ((commaList? (Grammar.sortItems source directed) ts).map fun us => ((), us)) keep
      (Strays source c) :=
  Reads.call_strays rfl hc (reads_commaList _ (reads_sortItem directed) hc)

/-! ## Clauses that may be missing -/

theorem seen_by (word : String) (ts : List Token) :
    (ts[0]?.any (·.isKeyword word) && ts[1]?.any (·.isKeyword "BY")) =
      ((keyword? word ts).bind (keyword? "BY")).isSome := by
  cases ts with
  | nil => rfl
  | cons t ts =>
    rw [(tests_keyword? word).cons]
    cases hword : t.isKeyword word with
    | false => simp [hword]
    | true =>
      have := (tests_keyword? "BY").isSome_eq ts
      simp [hword, this, List.head?_eq_getElem?]

theorem runs_advance (us : List Token) (hc : c.At source (us ++ ts)) (hne : us ≠ []) :
    Runs source (advance us.length) c (.ok ()) (c.upTo source ts) := by
  rw [← Cursor.moved_length us hc.rest hne]
  exact .change source (·.moved us.length) c

theorem reads_byClause (word : String) (directed : Bool) (hc : c.At source ts) :
    Reads source (byClause word directed) c
      ((Grammar.byClause source word directed ts).map fun us => ((), us)) keep (· = c) := by
  refine Reads.stay (.sees source _ c) (Reads.stay (.peekAt source 1 c) ?_)
  rw [List.head?_eq_getElem?, hc.rest, seen_by]
  unfold Grammar.byClause
  cases hby : (keyword? word ts).bind (keyword? "BY") with
  | none =>
    refine ⟨.ite_neg (by simp) ?_, (hc.upTo (List.suffix_refl ts)).sound⟩
    rw [keep, hc.upTo_self]
    exact .pure source () c
  | some us =>
    obtain ⟨vs, hword, hby⟩ := Option.bind_eq_some_iff.1 hby
    obtain ⟨b, rfl, -⟩ := (tests_keyword? "BY").takes hby
    obtain ⟨t, rfl, -⟩ := (tests_keyword? word).takes hword
    refine Reads.ite_pos rfl (Reads.stay (.current source c) ?_)
    refine Reads.bind (runs_advance [t, b] hc (by simp)) ?_
    exact reads_orRewind (Cursor.extends_upTo source us c)
      (reads_sortList directed (hc.upTo (List.suffix_append [t, b] us)))

/-- The tokens after what may stand between two numbers. -/
def separator? (ts : List Token) : Option (List Token) := punct? ',' ts <|> keyword? "OFFSET" ts

theorem runs_acceptSeparator (hc : c.At source ts) : Runs source acceptSeparator c
    (.ok (separator? ts).isSome) (c.upTo source ((separator? ts).getD ts)) :=
  runs_acceptEither hc (tests_punct? ',') (runs_accept hc (tests_keyword? "OFFSET"))

theorem suffix_of_separator? (h : separator? ts = some us) : us <:+ ts := by
  unfold separator? at h
  cases hcomma : punct? ',' ts with
  | some vs =>
    rw [hcomma] at h
    cases h
    exact (Grammar.advances_of_punct? hcomma).1
  | none =>
    rw [hcomma] at h
    exact (Grammar.advances_of_keyword? h).1

theorem reads_limitClause (hc : c.At source ts) : Reads source limitClause c
    ((Grammar.limitClause ts).map fun us => ((), us)) keep (· = c) := by
  refine Reads.stay (runs_sees hc (tests_keyword? "LIMIT")) ?_
  unfold Grammar.limitClause
  cases hlimit : keyword? "LIMIT" ts with
  | none =>
    refine ⟨.ite_neg (by simp) ?_, (hc.upTo (List.suffix_refl ts)).sound⟩
    rw [keep, hc.upTo_self]
    exact .pure source () c
  | some us =>
    obtain ⟨t, rfl, -⟩ := (tests_keyword? "LIMIT").takes hlimit
    have hc₁ := hc.upTo (List.suffix_cons t us)
    refine Reads.ite_pos rfl (Reads.stay (.current source c) ?_)
    refine Reads.bind (runs_advance [t] hc (by simp)) ?_
    refine Reads.bind (runs_accept hc₁ tests_number?) ?_
    dsimp only
    cases hnumber : number? us with
    | none =>
      have hrewind := Runs.rewind source (Cursor.extends_upTo source us c)
      exact ⟨c, rfl, .ite_neg (by simp) (hrewind.bind (.refuse source c))⟩
    | some vs =>
      have hc₂ := hc₁.upTo (Grammar.advances_of_number? hnumber).1
      refine Reads.ite_pos rfl (Reads.stay (.current source _) ?_)
      refine Reads.bind (runs_acceptSeparator hc₂) ?_
      show Reads source _ _ (some ((), ((separator? vs).bind number?).getD vs)) keep _
      cases hseparator : separator? vs with
      | none => exact ⟨.ite_neg (by simp) (.pure source () _), hc₂.sound⟩
      | some ws =>
        have hc₃ := hc₂.upTo (suffix_of_separator? hseparator)
        refine Reads.ite_pos rfl (Reads.bind (runs_accept hc₃ tests_number?) ?_)
        rw [Option.bind_some, Option.getD_some]
        cases hsecond : number? ws with
        | none =>
          have hrewind := Runs.rewind source
            (Cursor.extends_upTo source ws ((c.upTo source us).upTo source vs))
          exact ⟨.ite_neg (by simp) hrewind, hc₂.sound⟩
        | some xs =>
          exact ⟨.ite_pos rfl (.pure source () _),
            (hc₃.upTo (Grammar.advances_of_number? hsecond).1).sound⟩

theorem runs_offsetClause (hc : c.At source ts) : Runs source offsetClause c (.ok ())
    (c.upTo source ((Grammar.offsetClause ts).getD ts)) := by
  refine (runs_sees hc (tests_keyword? "OFFSET")).bind ?_
  unfold Grammar.offsetClause
  cases hoffset : keyword? "OFFSET" ts with
  | none =>
    rw [Option.getD_some, hc.upTo_self]
    exact .ite_neg (by simp) (.pure source () c)
  | some us =>
    obtain ⟨t, rfl, -⟩ := (tests_keyword? "OFFSET").takes hoffset
    have hc₁ := hc.upTo (List.suffix_cons t us)
    refine .ite_pos rfl ((Runs.current source c).bind ((runs_advance [t] hc (by simp)).bind ?_))
    refine (runs_accept hc₁ tests_number?).bind ?_
    dsimp only
    cases hnumber : number? us with
    | none =>
      have hrewind := Runs.rewind source (Cursor.extends_upTo source us c)
      simp only [Option.getD_none]
      rw [hc.upTo_self]
      exact .ite_neg (by simp) hrewind
    | some vs => exact .ite_pos rfl (.pure source () _)

/-! ## The last clauses -/

theorem suffix_of_byClause {word : String} {directed : Bool}
    (h : Grammar.byClause source word directed ts = some us) : us <:+ ts := by
  unfold Grammar.byClause at h
  split at h
  · cases h
    exact List.suffix_refl ts
  · rename_i vs hby
    obtain ⟨ws, hword, hby⟩ := Option.bind_eq_some_iff.1 hby
    exact (Grammar.suffix_of_commaList? h).trans ((Grammar.advances_of_keyword? hby).1.trans
      (Grammar.advances_of_keyword? hword).1)

theorem suffix_of_limitClause (h : Grammar.limitClause ts = some us) : us <:+ ts := by
  unfold Grammar.limitClause at h
  split at h
  · cases h
    exact List.suffix_refl ts
  · rename_i vs hlimit
    obtain ⟨ws, hnumber, rfl⟩ := Option.map_eq_some_iff.1 h
    have hws := (Grammar.advances_of_number? hnumber).1.trans
      (Grammar.advances_of_keyword? hlimit).1
    refine List.IsSuffix.trans ?_ hws
    show ((separator? ws).bind number?).getD ws <:+ ws
    cases hsecond : (separator? ws).bind number? with
    | none => exact List.suffix_refl ws
    | some xs =>
      obtain ⟨ys, hseparator, hnumber⟩ := Option.bind_eq_some_iff.1 hsecond
      exact (Grammar.advances_of_number? hnumber).1.trans (suffix_of_separator? hseparator)

theorem suffix_of_offsetClause (h : Grammar.offsetClause ts = some us) : us <:+ ts := by
  unfold Grammar.offsetClause at h
  split at h
  · cases h
    exact List.suffix_refl ts
  · rename_i vs hoffset
    exact (Grammar.advances_of_number? h).1.trans (Grammar.advances_of_keyword? hoffset).1

/-- The step goes as far as the tokens `ts`, and the query is one that can be read. -/
def Comes {α : Type} (source : Text) (p : Step α) (c : Cursor) (ts : List Token) : Prop :=
  ∃ r, (∀ u, r ≠ .error (.unsupported u)) ∧ Runs source p c r (c.upTo source ts) ∧
    (c.upTo source ts).At source ts

/-- What stands behind a clause is read only if the clause has its shape. -/
theorem comes_clause {α : Type} {p : Step Unit} {f : Unit → Step α}
    {clause : List Token → Option (List Token)} {clauses : List (List Token → Option (List Token))}
    (hc : c.At source ts)
    (hp : Reads source p c ((clause ts).map fun us => ((), us)) keep (· = c))
    (hsuffix : ∀ {us}, clause ts = some us → us <:+ ts)
    (hf : ∀ {us}, (c.upTo source us).At source us →
      Comes source (f ()) (c.upTo source us) (afterClauses clauses us)) :
    Comes source (p >>= f) c (afterClauses (clause :: clauses) ts) := by
  rw [afterClauses]
  cases hclause : clause ts with
  | none =>
    obtain ⟨_, rfl, hruns⟩ := hp.of_none (by rw [hclause]; rfl)
    have hself := hc.upTo_self
    refine ⟨.error .noMatch, by simp, ?_, hc.upTo (List.suffix_refl ts)⟩
    dsimp only
    rw [hself]
    exact hruns.bind_error
  | some us =>
    obtain ⟨hruns, -⟩ := hp.of_some (a := ()) (by rw [hclause]; rfl)
    obtain ⟨r, hr, hmore, hat⟩ := hf (hc.upTo (hsuffix hclause))
    exact ⟨r, hr, hruns.bind hmore, hat⟩

theorem afterClauses_single (clause : List Token → Option (List Token)) (ts : List Token) :
    afterClauses [clause] ts = (clause ts).getD ts := by
  rw [afterClauses]
  cases clause ts with
  | none => rfl
  | some us => rfl

theorem runs_tailClauses (hc : c.At source ts) :
    Runs source tailClauses c (.ok ()) (c.upTo source (Grammar.tail source ts)) ∧
      (c.upTo source (Grammar.tail source ts)).At source (Grammar.tail source ts) := by
  unfold Grammar.tail
  have hcomes : Comes source (do
      byClause "GROUP" false
      byClause "ORDER" true
      limitClause
      offsetClause) c (afterClauses [Grammar.byClause source "GROUP" false,
        Grammar.byClause source "ORDER" true, Grammar.limitClause, Grammar.offsetClause] ts) := by
    refine comes_clause hc (reads_byClause _ _ hc) suffix_of_byClause fun {us} hus => ?_
    refine comes_clause hus (reads_byClause _ _ hus) suffix_of_byClause fun {vs} hvs => ?_
    refine comes_clause hvs (reads_limitClause hvs) suffix_of_limitClause fun {ws} hws => ?_
    rw [afterClauses_single]
    refine ⟨.ok (), by simp, runs_offsetClause hws, hws.upTo ?_⟩
    cases hoffset : Grammar.offsetClause ws with
    | none => exact List.suffix_refl ws
    | some xs => exact suffix_of_offsetClause hoffset
  obtain ⟨r, hr, hruns, hat⟩ := hcomes
  exact ⟨(hruns.quietly hr).call (Call.good_of_match _ hc.sound hat.sound), hat⟩

end TypedMirror.Stepwise
