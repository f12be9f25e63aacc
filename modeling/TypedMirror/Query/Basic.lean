import TypedMirror.Query.Deflated

/-!
# Queries

What is known of a query once it has been read: its operation, the tables it names, the conditions
of its joins, the predicates of its WHERE clause, and the template in which tables and columns have
become markers.
-/

namespace TypedMirror

/-- The construct that no reading allows: skipping over a subquery would hide table references. -/
inductive Unsupported
  | subquery
deriving DecidableEq, Repr

def Unsupported.message : Unsupported → Text
  | .subquery => "not implemented: subquery".toList

inductive Operation
  | select
  | update
  | delete
deriving DecidableEq, Repr

/-- An occurrence of a table, with the position of its name in the deflated query. -/
structure TableRef where
  name : Text
  aliasName : Option Text
  position : Nat
deriving DecidableEq, Repr

/-- The name by which other clauses mean this occurrence. -/
def TableRef.key (t : TableRef) : Text := t.aliasName.getD t.name

/-- A column, qualified or not, as read and as written, with its position in the deflated query. -/
structure ColumnRef where
  qualifier : Option Text
  name : Text
  raw : Text
  position : Nat
deriving DecidableEq, Repr

inductive Operator
  | eq
  | notEq
  | lt
  | gt
  | ltEq
  | gtEq
  | nullSafeEq
  | like
  | notLike
  | is
  | isNot
  | isIn
  | notIn
deriving DecidableEq, Repr

/-- The comparison a symbol stands for. -/
def Operator.ofSymbol? (symbol : Text) : Option Operator :=
  [("=", Operator.eq), ("!=", .notEq), ("<>", .notEq), ("<", .lt), (">", .gt), ("<=", .ltEq),
    (">=", .gtEq), ("<=>", .nullSafeEq)].findSome? fun p =>
      if symbol = p.1.toList then some p.2 else none

inductive JoinKind
  | inner
  | left
  | right
  | outer
  | cross
deriving DecidableEq, Repr

/-- A joined table and the comparison of columns it is joined on. -/
structure Join where
  kind : JoinKind
  table : TableRef
  left : ColumnRef
  operator : Operator
  right : ColumnRef
deriving DecidableEq, Repr

/-- The right-hand side of a predicate. -/
inductive Operand
  /-- A single string literal, by number. -/
  | literal (id : Nat)
  /-- A list of string literals between parentheses. -/
  | literals (ids : List Nat)
  /-- Anything else, as it stands in the deflated query. -/
  | other (source : Text)
deriving DecidableEq, Repr

/-- A conjunct of the WHERE clause that starts with a column and an operator. -/
structure Predicate where
  column : ColumnRef
  operator : Operator
  operand : Operand
deriving DecidableEq, Repr

/-- A query as it was read. -/
structure Query where
  /-- What the query does, if its first word says so. -/
  operation : Option Operation
  /-- The tables of the statement, then those of its joins. -/
  tables : List TableRef
  joins : List Join
  predicates : List Predicate
  /-- Whether the WHERE clause holds a disjunction. -/
  usesOr : Bool
  /-- The contents of the literals, from number one on. -/
  literals : List Text
  /-- The deflated query with its tables and predicate columns as markers. -/
  template : Text
  /-- Whether every token has been accounted for. -/
  fullyParsed : Bool
deriving DecidableEq, Repr

namespace Query

/-- Nothing is known of a query that starts with no known operation. -/
def unknown : Query := ⟨none, [], [], [], false, [], [], false⟩

/-- The contents of the literal with a number. -/
def literal? (q : Query) (id : Nat) : Option Text := Deflated.literal? ⟨q.template, q.literals⟩ id

/-- The table that an alias, or a name without alias, means: the last one of that key. -/
def resolve (q : Query) (key : Text) : Option Text :=
  (q.tables.reverse.find? (·.key == key)).map (·.name)

/-- Every occurrence of a table. -/
def references (q : Query) (table : Text) : List TableRef := q.tables.filter (·.name == table)

/-- What each marker of the template stands for, with a name chosen for every table. -/
def markerText (q : Query) (tableName : Text → Text) (m : Marker) : Option Text :=
  match m.kind with
  | .table => some (tableName m.name)
  | .column => some m.name
  | .literal => Deflated.literalNamed q.literal? m.name
  | .escape => some Marker.opening

/-- The query as text again, with a name chosen for every table. -/
def render (q : Query) (tableName : Text → Text) : Text :=
  Template.expand (q.markerText tableName) q.template

/-- The query as text again, its tables under their own names. -/
def inflate (q : Query) : Text := q.render id

end Query

end TypedMirror
