import TypedMirror.Query.Basic
import TypedMirror.Query.Token.Lexer

/-!
# Productions

A production reads a phrase at the head of a list of tokens and leaves the tokens after it, or
refuses and leaves all of them.  `Advances` says what each of them keeps: the tokens left are a
proper end of the tokens given, so that a production can be repeated for as long as it reads.
-/

namespace TypedMirror

/-- The tokens `rest` are left of `ts` after something has been read. -/
def Advances (ts rest : List Token) : Prop := rest <:+ ts ∧ rest.length < ts.length

theorem Advances.trans {a b c : List Token} (h₁ : Advances a b) (h₂ : Advances b c) :
    Advances a c :=
  ⟨h₂.1.trans h₁.1, Nat.lt_trans h₂.2 h₁.2⟩

theorem Advances.cons (t : Token) (ts : List Token) : Advances (t :: ts) ts :=
  ⟨List.suffix_cons t ts, by simp⟩

/-- A production that never reads without taking a token. -/
structure Production (α : Type) where
  read : List Token → Option (α × List Token)
  advances : ∀ {ts a rest}, read ts = some (a, rest) → Advances ts rest

/-- As many phrases as there are, one after the other. -/
def Production.many {α : Type} (p : Production α) (ts : List Token) : List α × List Token :=
  match h : p.read ts with
  | none => ([], ts)
  | some (a, rest) =>
    have := (p.advances h).2
    let more := many p rest
    (a :: more.1, more.2)
termination_by ts.length

namespace Grammar

/-! ## Single tokens -/

/-- The tokens after a keyword. -/
def keyword? (word : String) : List Token → Option (List Token)
  | t :: ts => if t.isKeyword word then some ts else none
  | [] => none

/-- The tokens after a punctuation mark. -/
def punct? (c : Char) : List Token → Option (List Token)
  | t :: ts => if t.isPunct c then some ts else none
  | [] => none

/-- The tokens after an operator. -/
def operator? (symbol : String) : List Token → Option (List Token)
  | t :: ts => if t.isOperator symbol then some ts else none
  | [] => none

/-- The tokens after a number. -/
def number? : List Token → Option (List Token)
  | t :: ts => if t.kind = .number then some ts else none
  | [] => none

section Single

variable {ts rest : List Token}

theorem advances_of_keyword? {word : String} (h : keyword? word ts = some rest) :
    Advances ts rest := by
  unfold keyword? at h
  split at h <;> simp at h
  exact h.2 ▸ Advances.cons _ _

theorem advances_of_punct? {c : Char} (h : punct? c ts = some rest) : Advances ts rest := by
  unfold punct? at h
  split at h <;> simp at h
  exact h.2 ▸ Advances.cons _ _

theorem advances_of_operator? {symbol : String} (h : operator? symbol ts = some rest) :
    Advances ts rest := by
  unfold operator? at h
  split at h <;> simp at h
  exact h.2 ▸ Advances.cons _ _

theorem advances_of_number? (h : number? ts = some rest) : Advances ts rest := by
  unfold number? at h
  split at h <;> simp at h
  exact h.2 ▸ Advances.cons _ _

end Single

/-! ## Names -/

/-- Words that are never a table, an alias or the first word of a column. -/
def reserved : List String :=
  ["SELECT", "FROM", "WHERE", "JOIN", "LEFT", "RIGHT", "INNER", "OUTER", "CROSS", "ON", "USING",
    "AS", "SET", "VALUES", "GROUP", "ORDER", "BY", "HAVING", "LIMIT", "OFFSET", "AND", "OR",
    "XOR", "NOT", "UNION", "IS", "NULL", "LIKE", "IN", "EXISTS"]

def isReserved (t : Token) : Bool := reserved.any t.isKeyword

/-- Whether a token can name a table or column.  A name becomes the name of a marker, so it may
hold no bracket. -/
def isIdentifier (t : Token) : Bool :=
  match t.kind with
  | .quotedName => !(t.text.contains '[' || t.text.contains ']')
  | .word => !isReserved t
  | _ => false

/-- The position of a token's name, after the backtick if there is one. -/
def namePosition (t : Token) : Nat :=
  if t.kind = .quotedName then t.start + 1 else t.start

/-- `[AS] alias`; an `AS` without a name after it is left alone. -/
def readAlias (ts : List Token) : Option Text × List Token :=
  match (keyword? "AS" ts).getD ts with
  | t :: rest => if isIdentifier t then (some t.name, rest) else (none, ts)
  | [] => (none, ts)

/-- `name [[AS] alias]`.  A name that a dot follows is a schema, and no table is read. -/
def tableRef : List Token → Option (TableRef × List Token)
  | [] => none
  | t :: ts =>
    if isIdentifier t && (punct? '.' ts).isNone then
      let a := readAlias ts
      some (⟨t.name, a.1, namePosition t⟩, a.2)
    else none

theorem readAlias_suffix (ts : List Token) : (readAlias ts).2 <:+ ts := by
  unfold readAlias
  have h : (keyword? "AS" ts).getD ts <:+ ts := by
    cases hk : keyword? "AS" ts with
    | none => simp
    | some rest => exact (advances_of_keyword? hk).1
  split
  · rename_i t rest hr
    rw [hr] at h
    split
    · exact (List.suffix_cons t rest).trans h
    · simp
  · simp

theorem advances_of_tableRef {ts rest : List Token} {t : TableRef}
    (h : tableRef ts = some (t, rest)) : Advances ts rest := by
  unfold tableRef at h
  split at h
  · simp at h
  · rename_i t ts
    split at h
    · cases h
      have := readAlias_suffix ts
      exact ⟨this.trans (List.suffix_cons _ _), Nat.lt_succ_of_le this.length_le⟩
    · simp at h

variable (source : Text)

/-- `[qualifier.]name`.  After the dot any word may stand. -/
def columnRef : List Token → Option (ColumnRef × List Token)
  | [] => none
  | t :: ts =>
    if isIdentifier t then
      match punct? '.' ts with
      | none => some (⟨none, t.name, t.text, t.start⟩, ts)
      | some (n :: rest) =>
        if n.kind = .word ∨ n.kind = .quotedName then
          some (⟨some t.name, n.name, source.slice t.start n.stop, t.start⟩, rest)
        else none
      | some [] => none
    else none

theorem advances_of_columnRef {ts rest : List Token} {c : ColumnRef}
    (h : columnRef source ts = some (c, rest)) : Advances ts rest := by
  unfold columnRef at h
  split at h
  · simp at h
  · rename_i t ts
    split at h
    · split at h
      · cases h
        exact Advances.cons _ _
      · rename_i n r hp
        split at h
        · cases h
          exact (Advances.cons _ _).trans ((advances_of_punct? hp).trans (Advances.cons _ _))
        · simp at h
      · simp at h
    · simp at h

/-! ## Conditions of columns -/

/-- Whether a list in parentheses starts here. -/
def opensList (ts : List Token) : Bool := (punct? '(' ts).isSome

/-- A comparison, `[NOT] LIKE`, `IS [NOT]`, and where `allowIn` says so, `[NOT] IN` with a list
directly after it. -/
def operator (allowIn : Bool) : List Token → Option (Operator × List Token)
  | [] => none
  | t :: ts =>
    if t.kind = .operator then (Operator.ofSymbol? t.text).map (·, ts)
    else if t.isKeyword "LIKE" then some (.like, ts)
    else if t.isKeyword "IS" then
      match keyword? "NOT" ts with
      | some rest => some (.isNot, rest)
      | none => some (.is, ts)
    else if t.isKeyword "NOT" then
      match keyword? "LIKE" ts with
      | some rest => some (.notLike, rest)
      | none =>
        match keyword? "IN" ts with
        | some rest => if allowIn && opensList rest then some (.notIn, rest) else none
        | none => none
    else if t.isKeyword "IN" && allowIn && opensList ts then some (.isIn, ts)
    else none

theorem advances_of_operator {allowIn : Bool} {ts rest : List Token} {o : Operator}
    (h : operator allowIn ts = some (o, rest)) : Advances ts rest := by
  unfold operator at h
  split at h
  · simp at h
  · rename_i t ts
    split at h
    · simp only [Option.map_eq_some_iff, Prod.mk.injEq] at h
      obtain ⟨_, _, _, rfl⟩ := h
      exact Advances.cons _ _
    · split at h
      · cases h
        exact Advances.cons _ _
      · split at h
        · split at h
          · cases h
            exact (Advances.cons _ _).trans (advances_of_keyword? (by assumption))
          · cases h
            exact Advances.cons _ _
        · split at h
          · split at h
            · cases h
              exact (Advances.cons _ _).trans (advances_of_keyword? (by assumption))
            · split at h
              · split at h
                · cases h
                  exact (Advances.cons _ _).trans (advances_of_keyword? (by assumption))
                · simp at h
              · simp at h
          · split at h
            · cases h
              exact Advances.cons _ _
            · simp at h

/-! ## Joins -/

/-- `JOIN`, or a kind of join in front of it; `LEFT` and `RIGHT` allow an `OUTER`. -/
def joinKind : List Token → Option (JoinKind × List Token)
  | [] => none
  | t :: ts =>
    if t.isKeyword "JOIN" then some (.inner, ts)
    else if t.isKeyword "LEFT" then
      (keyword? "JOIN" ((keyword? "OUTER" ts).getD ts)).map (.left, ·)
    else if t.isKeyword "RIGHT" then
      (keyword? "JOIN" ((keyword? "OUTER" ts).getD ts)).map (.right, ·)
    else if t.isKeyword "INNER" then (keyword? "JOIN" ts).map (.inner, ·)
    else if t.isKeyword "OUTER" then (keyword? "JOIN" ts).map (.outer, ·)
    else if t.isKeyword "CROSS" then (keyword? "JOIN" ts).map (.cross, ·)
    else none

/-- `column op column`. -/
def comparison (ts : List Token) : Option ((ColumnRef × Operator × ColumnRef) × List Token) := do
  let (left, ts) ← columnRef source ts
  let (op, ts) ← operator false ts
  let (right, ts) ← columnRef source ts
  some ((left, op, right), ts)

/-- A comparison, which may stand in parentheses. -/
def joinCondition (ts : List Token) :
    Option ((ColumnRef × Operator × ColumnRef) × List Token) :=
  match punct? '(' ts with
  | none => comparison source ts
  | some inner => do
    let (on, ts) ← comparison source inner
    let ts ← punct? ')' ts
    some (on, ts)

/-- `[kind] JOIN table ON condition`. -/
def join (ts : List Token) : Option (Join × List Token) := do
  let (kind, ts) ← joinKind ts
  let (table, ts) ← tableRef ts
  let ts ← keyword? "ON" ts
  let (on, ts) ← joinCondition source ts
  some (⟨kind, table, on.1, on.2.1, on.2.2⟩, ts)

section Join

variable {source} {ts rest : List Token}

theorem keyword?_getD_suffix (word : String) (ts : List Token) :
    (keyword? word ts).getD ts <:+ ts := by
  cases h : keyword? word ts with
  | none => simp
  | some rest => exact (advances_of_keyword? h).1

theorem advances_of_joinKind {k : JoinKind} (h : joinKind ts = some (k, rest)) :
    Advances ts rest := by
  have optional : ∀ {t : Token} {us : List Token} {word : String},
      keyword? "JOIN" ((keyword? word us).getD us) = some rest → Advances (t :: us) rest := by
    intro t us word hj
    have h₁ := advances_of_keyword? hj
    have h₂ := keyword?_getD_suffix word us
    have h₃ := h₂.length_le
    have h₄ := h₁.2
    exact ⟨h₁.1.trans (h₂.trans (List.suffix_cons _ _)), by simp; omega⟩
  have plain : ∀ {t : Token} {us : List Token},
      keyword? "JOIN" us = some rest → Advances (t :: us) rest := fun hj =>
    (Advances.cons _ _).trans (advances_of_keyword? hj)
  unfold joinKind at h
  split at h
  · simp at h
  · repeat' split at h
    · cases h
      exact Advances.cons _ _
    all_goals simp only [Option.map_eq_some_iff, Prod.mk.injEq, reduceCtorEq] at h
    all_goals obtain ⟨_, hj, _, rfl⟩ := h
    · exact optional hj
    · exact optional hj
    · exact plain hj
    · exact plain hj
    · exact plain hj

theorem advances_of_comparison {on : ColumnRef × Operator × ColumnRef}
    (h : comparison source ts = some (on, rest)) : Advances ts rest := by
  simp only [comparison, Option.bind_eq_bind, Option.bind_eq_some_iff, Option.some.injEq,
    Prod.mk.injEq] at h
  obtain ⟨⟨_, _⟩, h₁, ⟨_, _⟩, h₂, ⟨_, _⟩, h₃, _, rfl⟩ := h
  exact (advances_of_columnRef _ h₁).trans
    ((advances_of_operator h₂).trans (advances_of_columnRef _ h₃))

theorem advances_of_joinCondition {on : ColumnRef × Operator × ColumnRef}
    (h : joinCondition source ts = some (on, rest)) : Advances ts rest := by
  unfold joinCondition at h
  split at h
  · exact advances_of_comparison h
  · rename_i hp
    simp only [Option.bind_eq_bind, Option.bind_eq_some_iff, Option.some.injEq,
      Prod.mk.injEq] at h
    obtain ⟨⟨_, _⟩, h₁, _, h₂, _, rfl⟩ := h
    exact (advances_of_punct? hp).trans
      ((advances_of_comparison h₁).trans (advances_of_punct? h₂))

theorem advances_of_join {j : Join} (h : join source ts = some (j, rest)) : Advances ts rest := by
  simp only [join, Option.bind_eq_bind, Option.bind_eq_some_iff, Option.some.injEq,
    Prod.mk.injEq] at h
  obtain ⟨⟨_, _⟩, h₁, ⟨_, _⟩, h₂, _, h₃, ⟨_, _⟩, h₄, _, rfl⟩ := h
  exact (advances_of_joinKind h₁).trans ((advances_of_tableRef h₂).trans
    ((advances_of_keyword? h₃).trans (advances_of_joinCondition h₄)))

end Join

/-! ## Lists -/

/-- A comma and a phrase after it. -/
def Production.afterComma {α : Type} (p : Production α) : Production α where
  read ts := (punct? ',' ts).bind p.read
  advances := by
    intro ts a rest h
    obtain ⟨us, h₁, h₂⟩ := Option.bind_eq_some_iff.1 h
    exact (advances_of_punct? h₁).trans (p.advances h₂)

def tables : Production TableRef := ⟨tableRef, advances_of_tableRef⟩

def joins : Production Join := ⟨join source, advances_of_join⟩

/-- The tokens after a list of phrases with commas between them.  A comma with no phrase after it
spoils the list. -/
def commaList? {α : Type} (p : Production α) (ts : List Token) : Option (List Token) := do
  let (_, ts) ← p.read ts
  let rest := (Production.afterComma p).many ts
  if (punct? ',' rest.2).isSome then none else some rest.2

/-- Whether a token can stand on the right of an assignment. -/
def isAssigned (t : Token) : Bool :=
  ([Token.Kind.literal, .number, .word, .quotedName].contains t.kind && !isReserved t)
    || t.isKeyword "NULL"

/-- `column = value`, the value a single token. -/
def assignment (ts : List Token) : Option (ColumnRef × List Token) := do
  let (column, ts) ← columnRef source ts
  let ts ← operator? "=" ts
  match ts with
  | t :: rest => if isAssigned t then some (column, rest) else none
  | [] => none

theorem advances_of_assignment {ts rest : List Token} {c : ColumnRef}
    (h : assignment source ts = some (c, rest)) : Advances ts rest := by
  simp only [assignment, Option.bind_eq_bind, Option.bind_eq_some_iff] at h
  obtain ⟨⟨_, _⟩, h₁, us, h₂, h₃⟩ := h
  have h := (advances_of_columnRef _ h₁).trans (advances_of_operator? h₂)
  split at h₃
  · split at h₃
    · cases h₃
      exact h.trans (Advances.cons _ _)
    · simp at h₃
  · simp at h₃

def assignments : Production ColumnRef := ⟨assignment source, advances_of_assignment source⟩

/-- A number or a column, to sort or group by. -/
def sortKey (ts : List Token) : Option (List Token) :=
  match number? ts with
  | some rest => some rest
  | none => (columnRef source ts).map (·.2)

/-- The tokens after a direction, if there is one. -/
def direction (ts : List Token) : List Token :=
  match keyword? "ASC" ts with
  | some rest => rest
  | none => (keyword? "DESC" ts).getD ts

/-- A sort key, with a direction after it where `directed` allows one. -/
def sortItem (directed : Bool) (ts : List Token) : Option (Unit × List Token) :=
  (sortKey source ts).map fun rest => ((), if directed then direction rest else rest)

theorem direction_suffix (ts : List Token) : direction ts <:+ ts := by
  unfold direction
  split
  · exact (advances_of_keyword? (by assumption)).1
  · exact keyword?_getD_suffix _ _

theorem advances_of_sortKey {ts rest : List Token} (h : sortKey source ts = some rest) :
    Advances ts rest := by
  unfold sortKey at h
  split at h
  · cases h
    exact advances_of_number? (by assumption)
  · obtain ⟨⟨_, _⟩, hc, rfl⟩ := Option.map_eq_some_iff.1 h
    exact advances_of_columnRef _ hc

theorem advances_of_sortItem {directed : Bool} {ts rest : List Token} {u : Unit}
    (h : sortItem source directed ts = some (u, rest)) : Advances ts rest := by
  obtain ⟨us, hk, he⟩ := Option.map_eq_some_iff.1 h
  have hk := advances_of_sortKey source hk
  cases he
  split
  · have hd := direction_suffix us
    exact ⟨hd.trans hk.1, Nat.lt_of_le_of_lt hd.length_le hk.2⟩
  · exact hk

def sortItems (directed : Bool) : Production Unit :=
  ⟨sortItem source directed, advances_of_sortItem source⟩

end Grammar

end TypedMirror
