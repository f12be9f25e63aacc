import TypedMirror.Proofs.Language.Shape
import TypedMirror.Proofs.Renaming.Phrases
import TypedMirror.Proofs.Separators

/-!
# Productions and their shapes

What a production reads has the production's shape, and tokens of that shape are read, as far as
they go.  A production takes as much as it can, so the second needs that nothing follows which it
would take as well.

* `columnRef_iff`, `join_iff` — what needs nothing to follow;
* `table_of_tableRef`, `exists_tableRef` — a table, if no further name follows;
* `commas_of_many`, `exists_of_commas` — lists.
-/

namespace TypedMirror.Grammar

variable {t : Token} {ts us rest : List Token}

/-! ## Single tokens -/

section Single

variable {word : String} {c : Char}

theorem keyword?_cons (h : t.isKeyword word = true) (ts : List Token) :
    keyword? word (t :: ts) = some ts := if_pos h

theorem punct?_cons (h : t.isPunct c = true) (ts : List Token) : punct? c (t :: ts) = some ts :=
  if_pos h

theorem number?_cons (h : t.kind = .number) (ts : List Token) : number? (t :: ts) = some ts :=
  if_pos h

theorem keyword?_cons_eq_none (h : t.isKeyword word = false) (ts : List Token) :
    keyword? word (t :: ts) = none := if_neg (by rw [h]; decide)

theorem punct?_cons_eq_none (h : t.isPunct c = false) (ts : List Token) :
    punct? c (t :: ts) = none := if_neg (by rw [h]; decide)

theorem keyword?_eq_none : keyword? word ts = none ↔ ∀ t ∈ ts.head?, t.isKeyword word = false := by
  cases ts <;> simp [keyword?]

theorem punct?_eq_none : punct? c ts = none ↔ ∀ t ∈ ts.head?, t.isPunct c = false := by
  cases ts <;> simp [punct?]

theorem number?_eq_none : number? ts = none ↔ ∀ t ∈ ts.head?, t.kind ≠ .number := by
  cases ts <;> simp [number?]

theorem exists_of_number? (h : number? ts = some rest) :
    ∃ n, ts = n :: rest ∧ n.kind = .number := by
  unfold number? at h
  split at h
  · split at h
    · cases h
      exact ⟨_, rfl, by assumption⟩
    · cases h
  · cases h

theorem isIdentifier_iff : isIdentifier t = true ↔ Shape.IsName t := by
  unfold isIdentifier Shape.IsName
  cases t.kind <;> simp [isReserved]

theorem isIdentifier_of_reserved (hw : word ∈ reserved) (h : t.isKeyword word = true) :
    isIdentifier t = false := by
  rw [← Bool.not_eq_true]
  intro ht
  rw [isKeyword_of_isIdentifier ht hw] at h
  cases h

end Single

/-! ## Tables -/

/-- Neither a name stands at the head nor what could introduce one. -/
def Settled (ts : List Token) : Prop :=
  ∀ t ∈ ts.head?, isIdentifier t = false ∧ t.isKeyword "AS" = false

theorem readAlias_of_settled (h : Settled ts) : readAlias ts = (none, ts) := by
  have has : keyword? "AS" ts = none := keyword?_eq_none.2 fun t ht => (h t ht).2
  unfold readAlias
  rw [has]
  cases ts with
  | nil => rfl
  | cons t ts => simp [(h t rfl).1]

theorem readAlias_cons (h : isIdentifier t = true) (ts : List Token) :
    readAlias (t :: ts) = (some t.name, ts) := by
  have has : keyword? "AS" (t :: ts) = none :=
    keyword?_cons_eq_none (isKeyword_of_isIdentifier h (by decide)) ts
  simp [readAlias, has, h]

theorem readAlias_as {k : Token} (hk : k.isKeyword "AS" = true) (h : isIdentifier t = true)
    (ts : List Token) : readAlias (k :: t :: ts) = (some t.name, ts) := by
  simp [readAlias, keyword?_cons hk, h]

theorem table_of_tableRef {x : TableRef} (h : tableRef ts = some (x, rest)) :
    Shape.Table ts rest := by
  cases ts with
  | nil => cases h
  | cons t ts =>
    rw [tableRef] at h
    split at h
    · rename_i ht
      cases h
      rw [Bool.and_eq_true, Option.isNone_iff_eq_none] at ht
      have hname := isIdentifier_iff.1 ht.1
      unfold readAlias
      cases hk : keyword? "AS" ts with
      | none =>
        cases ts with
        | nil => exact .bare hname (punct?_eq_none.1 ht.2)
        | cons a ts =>
          simp only [Option.getD_none]
          split
          · exact .named hname (isIdentifier_iff.1 (by assumption))
          · exact .bare hname (punct?_eq_none.1 ht.2)
      | some us =>
        obtain ⟨k, rfl, has⟩ := exists_of_keyword? hk
        cases us with
        | nil => exact .bare hname (punct?_eq_none.1 ht.2)
        | cons a us =>
          simp only [Option.getD_some]
          split
          · exact .namedAs hname has (isIdentifier_iff.1 (by assumption))
          · exact .bare hname (punct?_eq_none.1 ht.2)
    · cases h

theorem noDot_cons (h : t.isPunct '.' = false) (ts : List Token) : Shape.NoDot (t :: ts) := by
  simp [Shape.NoDot, h]

theorem tableRef_cons (ht : isIdentifier t = true) (hdot : Shape.NoDot ts) :
    tableRef (t :: ts) = some (⟨t.name, (readAlias ts).1, namePosition t⟩, (readAlias ts).2) := by
  have hnone : punct? '.' ts = none := punct?_eq_none.2 hdot
  simp [tableRef, ht, hnone]

theorem exists_tableRef (h : Shape.Table ts rest) (hrest : Settled rest) :
    ∃ x, tableRef ts = some (x, rest) := by
  cases h with
  | bare ht hdot =>
    rw [tableRef_cons (isIdentifier_iff.2 ht) hdot, readAlias_of_settled hrest]
    exact ⟨_, rfl⟩
  | named ht ha =>
    have ha := isIdentifier_iff.2 ha
    rw [tableRef_cons (isIdentifier_iff.2 ht) (noDot_cons (isPunct_of_isIdentifier ha) _),
      readAlias_cons ha]
    exact ⟨_, rfl⟩
  | namedAs ht hk ha =>
    rw [tableRef_cons (isIdentifier_iff.2 ht) (noDot_cons (not_isPunct_of_isKeyword hk) _),
      readAlias_as hk (isIdentifier_iff.2 ha)]
    exact ⟨_, rfl⟩

/-! ## Columns and their comparisons -/

theorem columnRef_iff (source : Text) :
    (∃ c, columnRef source ts = some (c, rest)) ↔ Shape.Column ts rest := by
  constructor
  · rintro ⟨c, h⟩
    cases ts with
    | nil => cases h
    | cons t ts =>
      rw [columnRef] at h
      split at h
      · rename_i ht
        have hname := isIdentifier_iff.1 ht
        cases hdot : punct? '.' ts with
        | none =>
          rw [hdot] at h
          cases h
          exact .plain hname (punct?_eq_none.1 hdot)
        | some us =>
          obtain ⟨d, rfl, hd⟩ := exists_of_punct? hdot
          rw [hdot] at h
          cases us with
          | nil => cases h
          | cons n us =>
            dsimp only at h
            split at h
            · cases h
              exact .qualified hname hd (by assumption)
            · cases h
      · cases h
  · rintro (⟨ht, hdot⟩ | ⟨ht, hd, hn⟩)
    · have hdot : punct? '.' rest = none := punct?_eq_none.2 hdot
      exact ⟨_, by rw [columnRef, if_pos (isIdentifier_iff.2 ht), hdot]⟩
    · exact ⟨_, by rw [columnRef, if_pos (isIdentifier_iff.2 ht), punct?_cons hd]; exact if_pos hn⟩

theorem mem_comparisons {symbol : Text} :
    (∃ o, Operator.ofSymbol? symbol = some o) ↔ symbol ∈ Shape.comparisons := by
  simp [Operator.ofSymbol?, Shape.comparisons, ← Option.isSome_iff_exists]

theorem op_of_operator {o : Operator} (h : operator false ts = some (o, rest)) :
    Shape.Op ts rest := by
  cases ts with
  | nil => cases h
  | cons t ts =>
    rw [operator] at h
    split at h
    · obtain ⟨o, ho, heq⟩ := Option.map_eq_some_iff.1 h
      cases heq
      exact .symbol (by assumption) (mem_comparisons.1 ⟨o, ho⟩)
    split at h
    · cases h
      exact .like (by assumption)
    split at h
    · cases hn : keyword? "NOT" ts with
      | none =>
        rw [hn] at h
        cases h
        exact .is (by assumption)
      | some us =>
        obtain ⟨n, rfl, hnot⟩ := exists_of_keyword? hn
        rw [hn] at h
        cases h
        exact .isNot (by assumption) hnot
    split at h
    · cases hl : keyword? "LIKE" ts with
      | none =>
        rw [hl] at h
        dsimp only at h
        split at h
        · simp at h
        · cases h
      | some us =>
        obtain ⟨l, rfl, hlike⟩ := exists_of_keyword? hl
        rw [hl] at h
        cases h
        exact .notLike (by assumption) hlike
    · simp at h

theorem exists_operator (h : Shape.Op ts rest)
    (hrest : ∀ t ∈ rest.head?, t.isKeyword "NOT" = false) :
    ∃ o, operator false ts = some (o, rest) := by
  have hkind : ∀ {t : Token} {word : String}, t.isKeyword word = true → t.kind ≠ .operator := by
    intro t word h
    rw [kind_of_isKeyword h]
    decide
  cases h with
  | symbol hk ht =>
    obtain ⟨o, ho⟩ := mem_comparisons.2 ht
    exact ⟨o, by rw [operator, if_pos hk, ho]; rfl⟩
  | like ht => exact ⟨.like, by rw [operator, if_neg (hkind ht), if_pos ht]⟩
  | notLike hn ht =>
    refine ⟨.notLike, ?_⟩
    rw [operator, if_neg (hkind hn), if_neg (by rw [not_isKeyword hn (by decide)]; decide),
      if_neg (by rw [not_isKeyword hn (by decide)]; decide), if_pos hn, keyword?_cons ht]
  | is ht =>
    refine ⟨.is, ?_⟩
    rw [operator, if_neg (hkind ht), if_neg (by rw [not_isKeyword ht (by decide)]; decide),
      if_pos ht, keyword?_eq_none.2 hrest]
  | isNot ht hn =>
    refine ⟨.isNot, ?_⟩
    rw [operator, if_neg (hkind ht), if_neg (by rw [not_isKeyword ht (by decide)]; decide),
      if_pos ht, keyword?_cons hn]

theorem exists_cons_of_column (h : Shape.Column ts rest) :
    ∃ t us, ts = t :: us ∧ isIdentifier t = true := by
  cases h with
  | plain ht => exact ⟨_, _, rfl, isIdentifier_iff.2 ht⟩
  | qualified ht => exact ⟨_, _, rfl, isIdentifier_iff.2 ht⟩

theorem comparison_iff (source : Text) :
    (∃ on, comparison source ts = some (on, rest)) ↔ Shape.Comparison ts rest := by
  constructor
  · rintro ⟨on, h⟩
    simp only [comparison, Option.bind_eq_bind, Option.bind_eq_some_iff, Option.some.injEq,
      Prod.mk.injEq] at h
    obtain ⟨⟨l, us⟩, hl, ⟨o, vs⟩, ho, ⟨r, ws⟩, hr, -, rfl⟩ := h
    exact .intro ((columnRef_iff source).1 ⟨l, hl⟩) (op_of_operator ho)
      ((columnRef_iff source).1 ⟨r, hr⟩)
  · rintro ⟨hl, ho, hr⟩
    -- the operator takes no `NOT` from the column behind it
    have hnot : ∀ t us vs, Shape.Column us vs → t ∈ us.head? → t.isKeyword "NOT" = false := by
      intro t us vs hc ht
      obtain ⟨u, us, rfl, hu⟩ := exists_cons_of_column hc
      exact Option.some.inj ht ▸ isKeyword_of_isIdentifier hu (by decide)
    obtain ⟨l, hl⟩ := (columnRef_iff source).2 hl
    obtain ⟨o, ho⟩ := exists_operator ho fun t ht => hnot t _ _ hr ht
    obtain ⟨r, hr⟩ := (columnRef_iff source).2 hr
    exact ⟨(l, o, r), by simp only [comparison, hl, ho, hr, Option.bind_eq_bind, Option.bind_some]⟩

/-! ## Joins -/

theorem joinCondition_iff (source : Text) :
    (∃ on, joinCondition source ts = some (on, rest)) ↔ Shape.Condition ts rest := by
  constructor
  · rintro ⟨on, h⟩
    unfold joinCondition at h
    cases hl : punct? '(' ts with
    | none =>
      rw [hl] at h
      exact .bare ((comparison_iff source).1 ⟨on, h⟩)
    | some us =>
      obtain ⟨l, rfl, hopen⟩ := exists_of_punct? hl
      rw [hl] at h
      obtain ⟨⟨on', vs⟩, hon, h⟩ := Option.bind_eq_some_iff.1 h
      obtain ⟨ws, hr, h⟩ := Option.bind_eq_some_iff.1 h
      cases h
      obtain ⟨r, rfl, hclose⟩ := exists_of_punct? hr
      exact .grouped hopen ((comparison_iff source).1 ⟨_, hon⟩) hclose
  · rintro (h | ⟨hl, h, hr⟩)
    · have hnone : punct? '(' ts = none := by
        obtain ⟨hcolumn, -, -⟩ := h
        obtain ⟨t, us, rfl, ht⟩ := exists_cons_of_column hcolumn
        exact punct?_cons_eq_none (isPunct_of_isIdentifier ht) us
      obtain ⟨on, hon⟩ := (comparison_iff source).2 h
      exact ⟨on, by rw [joinCondition, hnone]; exact hon⟩
    · obtain ⟨on, hon⟩ := (comparison_iff source).2 h
      refine ⟨on, ?_⟩
      simp only [joinCondition, punct?_cons hl, hon, punct?_cons hr, Option.bind_eq_bind,
        Option.bind_some]

theorem joinWords_of_joinKind {k : JoinKind} (h : joinKind ts = some (k, rest)) :
    Shape.JoinWords ts rest := by
  have side : ∀ {t : Token} {us : List Token} {kind : JoinKind},
      t.isKeyword "LEFT" = true ∨ t.isKeyword "RIGHT" = true →
      (keyword? "JOIN" ((keyword? "OUTER" us).getD us)).map (kind, ·) = some (k, rest) →
      Shape.JoinWords (t :: us) rest := by
    intro t us kind ht hm
    obtain ⟨vs, hj, heq⟩ := Option.map_eq_some_iff.1 hm
    cases heq
    obtain ⟨j, hus, hjoin⟩ := exists_of_keyword? hj
    cases ho : keyword? "OUTER" us with
    | none =>
      rw [ho] at hus
      exact (show us = j :: rest from hus) ▸ .side ht hjoin
    | some ws =>
      obtain ⟨o, rfl, ho'⟩ := exists_of_keyword? ho
      rw [ho] at hus
      exact (show ws = j :: rest from hus) ▸ .outerSide ht ho' hjoin
  have kind : ∀ {t : Token} {us : List Token} {kind : JoinKind},
      t.isKeyword "INNER" = true ∨ t.isKeyword "OUTER" = true ∨ t.isKeyword "CROSS" = true →
      (keyword? "JOIN" us).map (kind, ·) = some (k, rest) → Shape.JoinWords (t :: us) rest := by
    intro t us kind ht hm
    obtain ⟨vs, hj, heq⟩ := Option.map_eq_some_iff.1 hm
    cases heq
    obtain ⟨j, rfl, hjoin⟩ := exists_of_keyword? hj
    exact .kind ht hjoin
  cases ts with
  | nil => cases h
  | cons t ts =>
    rw [joinKind] at h
    split at h
    · cases h
      exact .plain (by assumption)
    split at h
    · exact side (.inl (by assumption)) h
    split at h
    · exact side (.inr (by assumption)) h
    split at h
    · exact kind (.inl (by assumption)) h
    split at h
    · exact kind (.inr (.inl (by assumption))) h
    split at h
    · exact kind (.inr (.inr (by assumption))) h
    · cases h

theorem exists_joinKind (h : Shape.JoinWords ts rest) : ∃ k, joinKind ts = some (k, rest) := by
  have hno : ∀ {t : Token} {word word' : String}, t.isKeyword word = true →
      Text.lower word.toList ≠ Text.lower word'.toList → ¬ t.isKeyword word' = true := by
    intro t word word' h hne
    rw [not_isKeyword h hne]
    decide
  cases h with
  | plain ht => exact ⟨.inner, if_pos ht⟩
  | @side k t rest hk ht =>
    have houter : keyword? "OUTER" (t :: rest) = none :=
      keyword?_cons_eq_none (not_isKeyword ht (by decide)) rest
    rcases hk with hk | hk
    · refine ⟨.left, ?_⟩
      rw [joinKind, if_neg (hno hk (by decide)), if_pos hk, houter, Option.getD_none,
        keyword?_cons ht]
      rfl
    · refine ⟨.right, ?_⟩
      rw [joinKind, if_neg (hno hk (by decide)), if_neg (hno hk (by decide)), if_pos hk, houter,
        Option.getD_none, keyword?_cons ht]
      rfl
  | outerSide hk ho ht =>
    rcases hk with hk | hk
    · refine ⟨.left, ?_⟩
      rw [joinKind, if_neg (hno hk (by decide)), if_pos hk, keyword?_cons ho, Option.getD_some,
        keyword?_cons ht]
      rfl
    · refine ⟨.right, ?_⟩
      rw [joinKind, if_neg (hno hk (by decide)), if_neg (hno hk (by decide)), if_pos hk,
        keyword?_cons ho, Option.getD_some, keyword?_cons ht]
      rfl
  | kind hk ht =>
    rcases hk with hk | hk | hk
    · refine ⟨.inner, ?_⟩
      rw [joinKind, if_neg (hno hk (by decide)), if_neg (hno hk (by decide)),
        if_neg (hno hk (by decide)), if_pos hk, keyword?_cons ht]
      rfl
    · refine ⟨.outer, ?_⟩
      rw [joinKind, if_neg (hno hk (by decide)), if_neg (hno hk (by decide)),
        if_neg (hno hk (by decide)), if_neg (hno hk (by decide)), if_pos hk, keyword?_cons ht]
      rfl
    · refine ⟨.cross, ?_⟩
      rw [joinKind, if_neg (hno hk (by decide)), if_neg (hno hk (by decide)),
        if_neg (hno hk (by decide)), if_neg (hno hk (by decide)), if_neg (hno hk (by decide)),
        if_pos hk, keyword?_cons ht]
      rfl

theorem settled_cons {word : String} (hw : word ∈ reserved)
    (hne : Text.lower word.toList ≠ Text.lower "AS".toList) (h : t.isKeyword word = true) :
    Settled (t :: ts) := by
  intro u hu
  cases hu
  exact ⟨isIdentifier_of_reserved hw h, not_isKeyword h hne⟩

theorem join_iff (source : Text) : (∃ j, join source ts = some (j, rest)) ↔ Shape.Join ts rest := by
  constructor
  · rintro ⟨j, h⟩
    simp only [join, Option.bind_eq_bind, Option.bind_eq_some_iff, Option.some.injEq,
      Prod.mk.injEq] at h
    obtain ⟨⟨k, us⟩, hkind, ⟨x, vs⟩, htable, ws, hon, ⟨on, zs⟩, hcondition, -, rfl⟩ := h
    obtain ⟨o, rfl, ho⟩ := exists_of_keyword? hon
    exact .intro (joinWords_of_joinKind hkind) (table_of_tableRef htable) ho
      ((joinCondition_iff source).1 ⟨on, hcondition⟩)
  · rintro ⟨hwords, htable, ho, hcondition⟩
    obtain ⟨k, hkind⟩ := exists_joinKind hwords
    obtain ⟨x, hx⟩ := exists_tableRef htable (settled_cons (by decide) (by decide) ho)
    obtain ⟨on, hon⟩ := (joinCondition_iff source).2 hcondition
    exact ⟨_, by simp only [join, hkind, hx, keyword?_cons ho, hon, Option.bind_eq_bind,
      Option.bind_some]; rfl⟩

/-! ## Lists -/

section Lists

variable {α : Type} {p : Production α} {shape : List Token → List Token → Prop}

/-- Whatever is read one after the other. -/
theorem star_of_many (h : ∀ {ts a rest}, p.read ts = some (a, rest) → shape ts rest)
    (ts : List Token) : Relation.ReflTransGen shape ts (p.many ts).2 := by
  fun_induction p.many ts with
  | case1 ts hr => exact .refl
  | case2 ts a rest hr _ more ih => exact .head (h hr) ih

theorem many_of_star (h : ∀ {ts rest}, shape ts rest → ∃ a, p.read ts = some (a, rest))
    (hs : Relation.ReflTransGen shape ts rest) (hrest : p.read rest = none) :
    (p.many ts).2 = rest := by
  induction hs using Relation.ReflTransGen.head_induction_on with
  | refl => rw [many_of_none hrest]
  | head hstep _ ih =>
    obtain ⟨a, ha⟩ := h hstep
    rw [many_of_some ha]
    exact ih

theorem commas_of_many (h : ∀ {ts a rest}, p.read ts = some (a, rest) → shape ts rest) {a : α}
    (ha : p.read ts = some (a, us)) :
    Shape.Commas shape ts ((Production.afterComma p).many us).2 := by
  fun_induction (Production.afterComma p).many us generalizing ts a with
  | case1 us hr => exact .one (h ha)
  | case2 us b rest hr _ more =>
    rename_i ih
    obtain ⟨vs, hcomma, hb⟩ := Option.bind_eq_some_iff.1 hr
    obtain ⟨c, rfl, hc⟩ := exists_of_punct? hcomma
    exact .more (h ha) hc (ih hb)

/-- The items of a list are read if nothing follows that would be taken for a part of the last. -/
theorem exists_of_commas {follow : List Token → Prop}
    (h : ∀ {ts rest}, shape ts rest → follow rest → ∃ a, p.read ts = some (a, rest))
    (hfollow : ∀ {c : Token} {us : List Token}, c.isPunct ',' = true → follow (c :: us))
    (hs : Shape.Commas shape ts rest) (hrest : follow rest) (hcomma : punct? ',' rest = none) :
    ∃ a us, p.read ts = some (a, us) ∧ ((Production.afterComma p).many us).2 = rest := by
  induction hs with
  | @one ts rest hts =>
    obtain ⟨a, ha⟩ := h hts hrest
    have hnone : (Production.afterComma p).read rest = none := by
      show (punct? ',' rest).bind p.read = none
      rw [hcomma]
      rfl
    exact ⟨a, rest, ha, by rw [many_of_none hnone]⟩
  | @more c ts us rest hts hc _ ih =>
    obtain ⟨a, ha⟩ := h hts (hfollow hc)
    obtain ⟨b, vs, hb, hmany⟩ := ih hrest hcomma
    have hread : (Production.afterComma p).read (c :: us) = some (b, vs) := by
      show (punct? ',' (c :: us)).bind p.read = some (b, vs)
      rw [punct?_cons hc]
      exact hb
    exact ⟨a, c :: us, ha, by rw [many_of_some hread]; exact hmany⟩

theorem commas_of_commaList? (h : ∀ {ts a rest}, p.read ts = some (a, rest) → shape ts rest)
    (hlist : commaList? p ts = some rest) : Shape.Commas shape ts rest := by
  obtain ⟨⟨a, us⟩, ha, hlist⟩ := Option.bind_eq_some_iff.1 hlist
  dsimp only at hlist
  split at hlist
  · cases hlist
  · cases hlist
    exact commas_of_many h ha

theorem commaList?_of_commas {follow : List Token → Prop}
    (h : ∀ {ts rest}, shape ts rest → follow rest → ∃ a, p.read ts = some (a, rest))
    (hfollow : ∀ {c : Token} {us : List Token}, c.isPunct ',' = true → follow (c :: us))
    (hs : Shape.Commas shape ts rest) (hrest : follow rest) (hcomma : punct? ',' rest = none) :
    commaList? p ts = some rest := by
  obtain ⟨a, us, ha, hmany⟩ := exists_of_commas h hfollow hs hrest hcomma
  simp only [commaList?, ha, Option.bind_eq_bind, Option.bind_some, hmany, hcomma]
  rfl

end Lists

end TypedMirror.Grammar
