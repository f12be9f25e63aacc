import TypedMirror.Query.Where

/-!
# Reading a query

A query is read from the tokens of its deflated form, clause by clause, and the reading stops at the
first clause that does not have its shape:

    SELECT … FROM table [[AS] alias][, …] join* [where] tail
    UPDATE table [[AS] alias][, …] join* SET column = value[, …] [where] tail
    DELETE … FROM table [[AS] alias] join* [where] tail
    tail := [GROUP BY keys] [ORDER BY keys] [LIMIT n [(, | OFFSET) n]] [OFFSET n]

Tables and the columns of predicates become markers of the template; nothing else of the query is
touched.
-/

namespace TypedMirror

namespace Grammar

/-! ## Clauses -/

/-- The tokens after the first `FROM` outside all parentheses, of which `depth` are open. -/
def skipToFrom (depth : Nat) : List Token → Except Unsupported (Option (List Token))
  | [] => .ok none
  | t :: ts =>
    if t.isKeyword "SELECT" then .error .subquery
    else if t.isPunct '(' then skipToFrom (depth + 1) ts
    else if t.isPunct ')' then skipToFrom (depth - 1) ts
    else if depth = 0 ∧ t.isKeyword "FROM" then .ok (some ts)
    else skipToFrom depth ts

/-- A table, and where the operation allows it more tables behind commas. -/
def tableList (op : Operation) (ts : List Token) : Option (List TableRef × List Token) := do
  let (first, ts) ← tableRef ts
  if op = .delete then some ([first], ts)
  else
    let more := (Production.afterComma tables).many ts
    some (first :: more.1, more.2)

variable (source : Text)

/-- `SET column = value[, …]`. -/
def setClause (ts : List Token) : Option (List Token) :=
  (keyword? "SET" ts).bind (commaList? (assignments source))

/-- `GROUP BY` or `ORDER BY` with its list.  Here and below: all tokens if there is no such clause,
and none if there is one without the right shape. -/
def byClause (word : String) (directed : Bool) (ts : List Token) : Option (List Token) :=
  match (keyword? word ts).bind (keyword? "BY") with
  | none => some ts
  | some rest => commaList? (sortItems source directed) rest

/-- `LIMIT n [(, | OFFSET) n]`. -/
def limitClause (ts : List Token) : Option (List Token) :=
  match keyword? "LIMIT" ts with
  | none => some ts
  | some rest => (number? rest).map fun us =>
    (((punct? ',' us <|> keyword? "OFFSET" us)).bind number?).getD us

/-- `OFFSET n`. -/
def offsetClause (ts : List Token) : Option (List Token) :=
  match keyword? "OFFSET" ts with
  | none => some ts
  | some rest => number? rest

/-- The tokens that the clauses leave, up to the first of them without its shape. -/
def afterClauses : List (List Token → Option (List Token)) → List Token → List Token
  | [], ts => ts
  | clause :: clauses, ts =>
    match clause ts with
    | none => ts
    | some rest => afterClauses clauses rest

/-- The tokens after the clauses that sort and limit. -/
def tail (ts : List Token) : List Token :=
  afterClauses [byClause source "GROUP" false, byClause source "ORDER" true, limitClause,
    offsetClause] ts

/-! ## Statements -/

/-- What has been read of a statement, and the tokens that have not. -/
structure Reading where
  tables : List TableRef
  joins : List Join
  predicates : List Predicate
  usesOr : Bool
  rest : List Token
deriving DecidableEq, Repr

/-- Nothing read. -/
def Reading.none (rest : List Token) : Reading := ⟨[], [], [], false, rest⟩

/-- The WHERE clause and what follows it. -/
def readConditions (tables : List TableRef) (joins : List Join) (ts : List Token) :
    Except Unsupported Reading := do
  let w ← whereSpans ts
  return ⟨tables, joins, predicatesFrom source 0 w.spans, w.usesOr, tail source w.rest⟩

/-- Everything from the list of tables on. -/
def readTables (op : Operation) (ts : List Token) : Except Unsupported Reading :=
  match tableList op ts with
  | none => .ok (.none ts)
  | some (first, us) =>
    let js := (joins source).many us
    let all := first ++ js.1.map (·.table)
    if op = .update then
      match setClause source js.2 with
      | none => .ok ⟨all, js.1, [], false, js.2⟩
      | some rest => readConditions source all js.1 rest
    else readConditions source all js.1 js.2

/-- Everything after the first word. -/
def readStatement (op : Operation) (ts : List Token) : Except Unsupported Reading :=
  if op = .update then readTables source op ts
  else
    match skipToFrom 0 ts with
    | .error e => .error e
    | .ok none => .ok (.none ts)
    | .ok (some rest) => readTables source op rest

/-- The operation that a query's first token names. -/
def operation? : List Token → Option (Operation × List Token)
  | [] => none
  | t :: ts =>
    if t.isKeyword "SELECT" then some (.select, ts)
    else if t.isKeyword "UPDATE" then some (.update, ts)
    else if t.isKeyword "DELETE" then some (.delete, ts)
    else none

/-- Nothing is left but at most one semicolon. -/
def isFinished : List Token → Bool
  | [] => true
  | [t] => t.isPunct ';'
  | _ => false

end Grammar

namespace Query

/-! ## The template -/

/-- A stretch of the deflated query and the marker to put in its place. -/
structure Edit where
  start : Nat
  stop : Nat
  marker : Marker
deriving DecidableEq, Repr

def tableEdit (t : TableRef) : Edit :=
  ⟨t.position, t.position + t.name.length, ⟨.table, t.name⟩⟩

def columnEdit (c : ColumnRef) : Edit :=
  ⟨c.position, c.position + c.raw.length, ⟨.column, c.raw⟩⟩

/-- The text from `position` on, with the edits made. -/
def splice (position : Nat) (text : Text) : List Edit → Text
  | [] => text
  | e :: es =>
    text.take (e.start - position) ++ e.marker.write
      ++ splice e.stop (text.drop (e.stop - position)) es

/-- The edits of what has been read, in the order of the text. -/
def edits (r : Grammar.Reading) : List Edit :=
  r.tables.map tableEdit ++ r.predicates.map (columnEdit ·.column)

/-- Reads a query.  Comments hide or show text depending on who reads them, so a query that holds
one counts as not fully parsed. -/
def parse (query : Text) : Except Unsupported Query :=
  let deflated := Deflated.ofQuery query
  let tokens := Token.read deflated.query
  match Grammar.operation? tokens with
  | none => .ok unknown
  | some (op, rest) => do
    let r ← Grammar.readStatement deflated.query op rest
    return {
      operation := some op
      tables := r.tables
      joins := r.joins
      predicates := r.predicates
      usesOr := r.usesOr
      literals := deflated.literals
      template := splice 0 deflated.query (edits r)
      fullyParsed := Grammar.isFinished r.rest && !tokens.any (·.kind = .comment) }

end Query

end TypedMirror
