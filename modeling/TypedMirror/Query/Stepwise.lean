import TypedMirror.Query.Parse

/-!
# Reading a query token by token

The reading of `Query.parse` as it goes along the tokens.  A cursor moves over them and writes an
edit down as soon as it has read a table or a column; where a phrase turns out not to be there, it
goes back and takes off what has been written since.  The places of the edits are those of the
tokens, and each rule that is tried is noted, with the cursor before it and after it.
-/

namespace TypedMirror.Stepwise

open Query (Edit)
open Grammar (isIdentifier)

/-! ## Cursors -/

/-- The number of tokens read, and what has been written down. -/
structure Cursor where
  position : Nat
  edits : List Edit
  tables : List TableRef
  joins : List Join
  predicates : List Predicate
  usesOr : Bool
deriving DecidableEq, Repr

/-- What it takes to go back: the position, and how much had been written down. -/
structure Mark where
  position : Nat
  edits : Nat
  tables : Nat
  joins : Nat
  predicates : Nat
deriving DecidableEq, Repr

namespace Cursor

/-- In front of the first token. -/
def start : Cursor := ⟨0, [], [], [], [], false⟩

/-- The tokens that have not been read. -/
def rest (source : Text) (c : Cursor) : List Token := (Token.read source).drop c.position

def moved (c : Cursor) (n : Nat) : Cursor := { c with position := c.position + n }

def mark (c : Cursor) : Mark :=
  ⟨c.position, c.edits.length, c.tables.length, c.joins.length, c.predicates.length⟩

/-- Back to a mark.  That a disjunction has been met is not forgotten. -/
def rewind (c : Cursor) (m : Mark) : Cursor :=
  { c with
    position := m.position
    edits := c.edits.take m.edits
    tables := c.tables.take m.tables
    joins := c.joins.take m.joins
    predicates := c.predicates.take m.predicates }

/-- The edit of a table's name, without its backticks. -/
def nameEdit (t : Token) : Edit :=
  if t.kind = .quotedName then ⟨t.start + 1, t.stop - 1, ⟨.table, t.name⟩⟩
  else ⟨t.start, t.stop, ⟨.table, t.name⟩⟩

/-- With a table written down, the token `t` being its name. -/
def withTable (c : Cursor) (t : Token) (x : TableRef) : Cursor :=
  { c with edits := c.edits ++ [nameEdit t], tables := c.tables ++ [x] }

/-- With a predicate written down, whose column is the source from `start` to `stop`. -/
def withPredicate (c : Cursor) (start stop : Nat) (p : Predicate) : Cursor :=
  { c with
    edits := c.edits ++ [⟨start, stop, ⟨.column, p.column.raw⟩⟩]
    predicates := c.predicates ++ [p] }

end Cursor

/-! ## Steps -/

/-- The rules of the grammar. -/
inductive Rule
  | operation
  | statement
  | skipToFrom
  | tableList
  | tableRef
  | join
  | joinBody
  | joinKind
  | condition
  | columnRef
  | operator
  | setClause
  | whereClause
  | spanEnd
  | whereSpan
  | tailClauses
  | sortList
deriving DecidableEq, Repr

/-- A rule that was tried, with the cursor before it and after it. -/
structure Call where
  rule : Rule
  before : Cursor
  after : Cursor
  matched : Bool
deriving DecidableEq, Repr

/-- Why nothing was read. -/
inductive Refusal
  | noMatch
  | unsupported (u : Unsupported)
deriving DecidableEq, Repr

structure Outcome (α : Type) where
  result : Except Refusal α
  cursor : Cursor
  calls : List Call

/-- A part of the reading of `source`, from a cursor on. -/
def Step (α : Type) : Type := (source : Text) → Cursor → Outcome α

instance : Monad Step where
  pure a := fun _ c => ⟨.ok a, c, []⟩
  bind p f := fun source c =>
    let o := p source c
    match o.result with
    | .error e => ⟨.error e, o.cursor, o.calls⟩
    | .ok a =>
      let more := f a source o.cursor
      ⟨more.result, more.cursor, o.calls ++ more.calls⟩

section Steps

variable {α σ : Type}

/-- A refusal leaves the cursor where it is. -/
def refuse : Step α := fun _ c => ⟨.error .noMatch, c, []⟩

def unsupported (u : Unsupported) : Step α := fun _ c => ⟨.error (.unsupported u), c, []⟩

def current : Step Cursor := fun _ c => ⟨.ok c, c, []⟩

def sourceText : Step Text := fun source c => ⟨.ok source, c, []⟩

def change (f : Cursor → Cursor) : Step Unit := fun _ c => ⟨.ok (), f c, []⟩

def moveTo (position : Nat) : Step Unit := change fun c => { c with position := position }

def advance (n : Nat) : Step Unit := change (·.moved n)

def rewind (m : Mark) : Step Unit := change (·.rewind m)

/-- A phrase that may be missing. -/
def attempt (p : Step α) : Step (Option α) := fun source c =>
  let o := p source c
  match o.result with
  | .ok a => ⟨.ok (some a), o.cursor, o.calls⟩
  | .error .noMatch => ⟨.ok none, o.cursor, o.calls⟩
  | .error (.unsupported u) => ⟨.error (.unsupported u), o.cursor, o.calls⟩

/-- A step for the sake of the cursor only. -/
def quietly (p : Step α) : Step Unit := do
  let _ ← attempt p
  return ()

def doWhen (b : Bool) (p : Step Unit) : Step Unit := if b then p else pure ()

@[simp] theorem doWhen_true (p : Step Unit) : doWhen true p = p := rfl

@[simp] theorem doWhen_false (p : Step Unit) : doWhen false p = pure () := rfl

/-- The step notes that the rule was tried. -/
def call (rule : Rule) (p : Step α) : Step α := fun source c =>
  let o := p source c
  ⟨o.result, o.cursor, o.calls ++ [⟨rule, c, o.cursor, o.result.toBool⟩]⟩

/-- Repeats `body` for as long as it gives something to go on with.  Each round reads a token. -/
def loop (body : σ → Step (Option σ)) (s : σ) : Step Unit := fun source c =>
  let o := body s source c
  match o.result with
  | .error e => ⟨.error e, o.cursor, o.calls⟩
  | .ok none => ⟨.ok (), o.cursor, o.calls⟩
  | .ok (some s) =>
    if (o.cursor.rest source).length < (c.rest source).length then
      let more := loop body s source o.cursor
      ⟨more.result, more.cursor, o.calls ++ more.calls⟩
    else ⟨.ok (), o.cursor, o.calls⟩
termination_by source c => (c.rest source).length

/-! ### Single tokens -/

/-- The token behind the next `n` ones. -/
def peekAt (n : Nat) : Step (Option Token) := fun source c => ⟨.ok (c.rest source)[n]?, c, []⟩

/-- Whether the next token is of a sort. -/
def sees (p : Token → Bool) : Step Bool := do return (← peekAt 0).any p

/-- The next token, if it is of a sort. -/
def take (p : Token → Bool) : Step Token := fun source c =>
  match c.rest source with
  | t :: _ => if p t then ⟨.ok t, c.moved 1, []⟩ else ⟨.error .noMatch, c, []⟩
  | [] => ⟨.error .noMatch, c, []⟩

/-- The next token. -/
def next : Step Token := take fun _ => true

/-- Whether the next token is of a sort, in which case it has been read. -/
def accept (p : Token → Bool) : Step Bool := do
  match ← attempt (take p) with
  | some _ => return true
  | none => return false

def acceptKeyword (word : String) : Step Bool := accept (·.isKeyword word)

def acceptPunct (c : Char) : Step Bool := accept (·.isPunct c)

def acceptNumber : Step Bool := accept (·.kind = .number)

/-- Past the next token, if it is of a sort. -/
def skip (p : Token → Bool) : Step Unit := do
  let _ ← accept p
  return ()

def expect (p : Token → Bool) : Step Unit := do
  let _ ← take p
  return ()

end Steps

/-! ## Names -/

/-- `[AS] alias`; an `AS` without a name after it is left alone. -/
def readAlias : Step (Option Text) := do
  let before ← current
  let hasAs ← acceptKeyword "AS"
  match ← attempt (take isIdentifier) with
  | some t => return some t.name
  | none => do
    doWhen hasAs (moveTo before.position)
    return none

/-- `name [[AS] alias]`, written down at once. -/
def tableRef : Step TableRef := call .tableRef do
  let before ← current
  let t ← take isIdentifier
  if ← sees (·.isPunct '.') then do
    rewind before.mark
    refuse
  else do
    let aliasName ← readAlias
    let x : TableRef := ⟨t.name, aliasName, Grammar.namePosition t⟩
    change (·.withTable t x)
    return x

/-- `[qualifier.]name`, with the stretch of the source where it stands. -/
def columnRef : Step (ColumnRef × Nat × Nat) := call .columnRef do
  let before ← current
  let first ← take isIdentifier
  if ← sees (·.isPunct '.') then do
    match (← peekAt 1).filter fun t => t.kind = .word || t.kind = .quotedName with
    | some second => do
      advance 2
      let raw := (← sourceText).slice first.start second.stop
      return (⟨some first.name, second.name, raw, first.start⟩, first.start, second.stop)
    | none => do
      moveTo before.position
      refuse
  else return (⟨none, first.name, first.text, first.start⟩, first.start, first.stop)

/-! ## Conditions of columns -/

/-- The operator that the token `t` begins, `IN` and `NOT IN` where `allowIn` says so. -/
def operatorFrom (allowIn : Bool) (t : Token) : Step (Option Operator) :=
  if t.kind = .operator then return Operator.ofSymbol? t.text
  else if t.isKeyword "LIKE" then return some .like
  else if t.isKeyword "IS" then do
    if ← acceptKeyword "NOT" then return some .isNot else return some .is
  else if t.isKeyword "NOT" then do
    if ← acceptKeyword "LIKE" then return some .notLike
    else if allowIn then do
      if ← acceptKeyword "IN" then return some .notIn else return none
    else return none
  else if allowIn && t.isKeyword "IN" then return some .isIn
  else return none

/-- A comparison, `[NOT] LIKE`, `IS [NOT]`, and where `allowIn` says so, `[NOT] IN` with a list
directly after it. -/
def operator (allowIn : Bool) : Step Operator := call .operator do
  let before ← current
  let t ← next
  let op ← operatorFrom allowIn t
  let opensList ← sees (·.isPunct '(')
  match op with
  | some op =>
    if (op = .isIn || op = .notIn) && !opensList then do
      moveTo before.position
      refuse
    else return op
  | none => do
    moveTo before.position
    refuse

/-- `column op column`. -/
def condition : Step (ColumnRef × Operator × ColumnRef) := call .condition do
  let (left, _) ← columnRef
  let op ← operator false
  let (right, _) ← columnRef
  return (left, op, right)

/-! ## Tables and joins -/

/-- The words in front of `JOIN` and the kind of join they make. -/
def joinWords : List (String × JoinKind) :=
  [("LEFT", .left), ("RIGHT", .right), ("INNER", .inner), ("OUTER", .outer), ("CROSS", .cross)]

def joinWord? (t : Token) : Option JoinKind :=
  joinWords.findSome? fun p => if t.isKeyword p.1 then some p.2 else none

/-- `JOIN`, or a kind of join in front of it; `LEFT` and `RIGHT` allow an `OUTER`. -/
def joinKind : Step JoinKind := call .joinKind do
  if ← acceptKeyword "JOIN" then return .inner
  else do
    let t ← take fun t => (joinWord? t).isSome
    let kind := (joinWord? t).getD .inner
    doWhen (kind = .left || kind = .right) (skip (·.isKeyword "OUTER"))
    expect (·.isKeyword "JOIN")
    return kind

/-- A comparison, which may stand in parentheses. -/
def joinCondition : Step (ColumnRef × Operator × ColumnRef) := do
  let parenthesized ← acceptPunct '('
  let on ← condition
  doWhen parenthesized (expect (·.isPunct ')'))
  return on

/-- A join whose table is written down before its condition is read. -/
def joinBody : Step Join := call .joinBody do
  let kind ← joinKind
  let table ← tableRef
  expect (·.isKeyword "ON")
  let on ← joinCondition
  return ⟨kind, table, on.1, on.2.1, on.2.2⟩

/-- `[kind] JOIN table ON condition`. -/
def join : Step Join := call .join do
  let before ← current
  match ← attempt joinBody with
  | some j => return j
  | none => do
    rewind before.mark
    refuse

/-- One table more behind a comma, if there is one. -/
def nextTable (_ : Unit) : Step (Option Unit) := do
  let before ← current
  if ← acceptPunct ',' then do
    match ← attempt tableRef with
    | some _ => return some ()
    | none => do
      rewind before.mark
      return none
  else return none

/-- A table, and more tables behind commas where they are allowed. -/
def tableList (allowMany : Bool) : Step Unit := call .tableList do
  let _ ← tableRef
  doWhen allowMany (loop nextTable ())

/-- One join more, if there is one. -/
def nextJoin (_ : Unit) : Step (Option Unit) := do
  match ← attempt join with
  | some j => do
    change fun c => { c with joins := c.joins ++ [j] }
    return some ()
  | none => return none

/-! ## Lists -/

/-- Another round if there is a comma. -/
def afterItem : Step (Option Unit) := do
  if ← acceptPunct ',' then return some () else return none

/-- Phrases with commas between them. -/
def commaList (item : Step Unit) : Step Unit :=
  loop (fun _ : Unit => do
    item
    afterItem) ()

/-- `column = value`, the value a single token. -/
def assignment : Step Unit := do
  let _ ← columnRef
  expect (·.isOperator "=")
  expect Grammar.isAssigned

/-- `SET column = value[, …]`. -/
def setClause : Step Unit := call .setClause do
  let before ← current
  expect (·.isKeyword "SET")
  match ← attempt (commaList assignment) with
  | some _ => return ()
  | none => do
    rewind before.mark
    refuse

/-- A number or a column. -/
def sortKey : Step Unit := do
  if ← acceptNumber then return ()
  else do
    let _ ← columnRef
    return ()

def direction : Step Unit := do
  if ← acceptKeyword "ASC" then return () else skip (·.isKeyword "DESC")

/-- A sort key, and a direction after it where `directed` allows one. -/
def sortItem (directed : Bool) : Step Unit := do
  sortKey
  doWhen directed direction

/-- Columns or positions to sort by. -/
def sortList (directed : Bool) : Step Unit := call .sortList (commaList (sortItem directed))

/-! ## The WHERE clause -/

def acceptConjunction : Step Bool := do
  if ← acceptKeyword "AND" then return true else accept (·.isOperator "&&")

def acceptDisjunction : Step Bool := do
  if ← acceptKeyword "OR" then return true
  else do
    if ← acceptKeyword "XOR" then return true else accept (·.isOperator "||")

/-- The connector in front of a span; the first span has none. -/
def connector (first : Bool) : Step Bool :=
  if first then return true
  else do
    if ← acceptDisjunction then do
      change fun c => { c with usesOr := true }
      return true
    else acceptConjunction

/-- The position of the token that ends the span. -/
def spanEnd : Step Nat := call .spanEnd do
  let here ← current
  match Grammar.span (here.rest (← sourceText)) with
  | .error u => unsupported u
  | .ok (s, _) => return here.position + s.length

/-- The tokens between two positions. -/
def tokens (start stop : Nat) : Step (List Token) := do
  return ((Token.read (← sourceText)).drop start).take (stop - start)

/-- The predicate that the span up to `stop` starts with, if it does.  A column may go on behind the
span. -/
def whereSpan (start stop : Nat) : Step Predicate := call .whereSpan do
  moveTo start
  let (column, columnStart, columnStop) ← columnRef
  let op ← operator true
  let here ← current
  if here.position > stop then refuse
  else do
    let p : Predicate :=
      ⟨column, op, Grammar.operand (← sourceText) op (← tokens here.position stop)⟩
    change (·.withPredicate columnStart columnStop p)
    return p

/-- One span more with its connector, if there is one; the span is no conjunct of the clause unless
`depth` is zero. -/
def nextSpan : Bool × Int → Step (Option (Bool × Int)) := fun (first, depth) => do
  let before ← current
  if ← connector first then do
    let here ← current
    let stop ← spanEnd
    if stop = here.position then do
      rewind before.mark
      return none
    else do
      doWhen (depth = 0) (quietly (whereSpan here.position stop))
      let s ← tokens here.position stop
      moveTo stop
      return some (false, depth + Grammar.balance s)
  else return none

def whereClause : Step Unit := call .whereClause do
  if ← acceptKeyword "WHERE" then loop nextSpan (true, 0) else return ()

/-! ## The clauses behind it -/

/-- `GROUP BY` or `ORDER BY` with its list. -/
def byClause (word : String) (directed : Bool) : Step Unit := do
  if (← sees (·.isKeyword word)) && (← peekAt 1).any (·.isKeyword "BY") then do
    let before ← current
    advance 2
    match ← attempt (sortList directed) with
    | some _ => return ()
    | none => do
      rewind before.mark
      refuse
  else return ()

def acceptSeparator : Step Bool := do
  if ← acceptPunct ',' then return true else acceptKeyword "OFFSET"

/-- `LIMIT n [(, | OFFSET) n]`. -/
def limitClause : Step Unit := do
  if ← sees (·.isKeyword "LIMIT") then do
    let before ← current
    advance 1
    if ← acceptNumber then do
      let second ← current
      if ← acceptSeparator then do
        if ← acceptNumber then return () else rewind second.mark
      else return ()
    else do
      rewind before.mark
      refuse
  else return ()

/-- `OFFSET n`. -/
def offsetClause : Step Unit := do
  if ← sees (·.isKeyword "OFFSET") then do
    let before ← current
    advance 1
    if ← acceptNumber then return () else rewind before.mark
  else return ()

/-- The clauses that sort and limit, up to the first of them without its shape. -/
def tailClauses : Step Unit := call .tailClauses <| quietly do
  byClause "GROUP" false
  byClause "ORDER" true
  limitClause
  offsetClause

/-! ## Statements -/

/-- One token more on the way to a `FROM` outside all parentheses, of which `depth` are open. -/
def nextToFrom (before : Cursor) (depth : Nat) : Step (Option Nat) := do
  match ← attempt next with
  | none => do
    moveTo before.position
    refuse
  | some t =>
    if t.isKeyword "SELECT" then unsupported .subquery
    else if t.isPunct '(' then return some (depth + 1)
    else if t.isPunct ')' then return some (depth - 1)
    else if depth = 0 ∧ t.isKeyword "FROM" then return none
    else return some depth

/-- To behind the first `FROM` outside all parentheses. -/
def skipToFrom : Step Unit := call .skipToFrom do
  let before ← current
  loop (nextToFrom before) 0

/-- Everything after the first word, up to the first rule without a match. -/
def statement (op : Operation) : Step Unit := call .statement <| quietly do
  doWhen (op ≠ .update) skipToFrom
  tableList (op ≠ .delete)
  loop nextJoin ()
  doWhen (op = .update) setClause
  whereClause
  tailClauses

/-- What the first token says the query does. -/
def operation : Step Operation := call .operation do
  if ← acceptKeyword "SELECT" then return .select
  else do
    if ← acceptKeyword "UPDATE" then return .update
    else do
      let _ ← take (·.isKeyword "DELETE")
      return .delete

def query : Step Operation := do
  let op ← operation
  statement op
  return op

/-! ## The template -/

/-- The text with the edits made from `copied` on, unless one of them is not in its place. -/
def template? (source : Text) (copied : Nat) : List Edit → Option Text
  | [] => if copied ≤ source.length then some (source.drop copied) else none
  | e :: es =>
    if copied ≤ e.start ∧ e.start ≤ source.length then
      (template? source e.stop es).map (source.slice copied e.start ++ e.marker.write ++ ·)
    else none

/-- Reads a query; nothing comes of it if the template can not be written. -/
def parse (text : Text) : Except Unsupported (Option Query) :=
  let deflated := Deflated.ofQuery text
  let o := query deflated.query .start
  match o.result with
  | .error .noMatch => .ok (some .unknown)
  | .error (.unsupported u) => .error u
  | .ok op => .ok do
    let template ← template? deflated.query 0 o.cursor.edits
    return {
      operation := some op
      tables := o.cursor.tables
      joins := o.cursor.joins
      predicates := o.cursor.predicates
      usesOr := o.cursor.usesOr
      literals := deflated.literals
      template := template
      fullyParsed := Grammar.isFinished (o.cursor.rest deflated.query) &&
        !(Token.read deflated.query).any (·.kind = .comment) }

end TypedMirror.Stepwise
