import TypedMirror.Text

/-!
# Statements

The SQL that keeps mirrors in step with their sources: tables, backfills, and triggers whose bodies
write and remove single rows.
-/

namespace TypedMirror.Sql

/-- The changes of a source row that a trigger follows. -/
inductive Event
  | insert
  | update
  | delete
deriving DecidableEq, Repr

def Event.all : List Event := [.insert, .update, .delete]

/-- The row before or after the change. -/
inductive RowImage
  | old
  | new
deriving DecidableEq, Repr

/-- A column of the table at hand, or of a row image. -/
structure Column where
  row : Option RowImage
  name : Text
deriving DecidableEq, Repr

/-- A condition on a row. -/
inductive Condition
  | always
  | never
  | same (a b : Column)
  | like (key : Column) (pattern : Text)
  | or (a b : Condition)
  | and (a b : Condition)
  | not (a : Condition)
  /-- The condition in parentheses. -/
  | group (a : Condition)
  /-- The condition, or false where it is null. -/
  | orFalse (a : Condition)
deriving DecidableEq, Repr

/-- One of the conditions holds. -/
def Condition.any : List Condition → Condition
  | [] => .never
  | [c] => c
  | c :: cs => .or c (any cs)

/-- The columns of a mirror and of its source. -/
structure Columns where
  id : Text
  object : Text
  key : Text
  value : Text
deriving DecidableEq, Repr

/-- What a trigger does to a mirror when its source row changes. -/
inductive RowAction
  /-- Puts the new row in. -/
  | insert (table : Text) (columns : Columns)
  /-- Puts the new row in, in place of the row with its id if there is one. -/
  | upsert (table : Text) (columns : Columns)
  /-- Removes the rows of the table that meet the condition. -/
  | delete (table : Text) (condition : Condition)
deriving DecidableEq, Repr

/-- A part of a trigger's body. -/
inductive BodyPart
  /-- The action of the first branch whose condition holds. -/
  | choose (branches : List (Condition × RowAction))
  | run (action : RowAction)
deriving DecidableEq, Repr

inductive Statement
  | dropTrigger (name : Text)
  | dropTable (table : Text)
  | createTable (table : Text) (columns : Columns) (valueType : Text)
  /-- Copies the rows of the source that meet the condition. -/
  | backfill (table : Text) (columns : Columns) (source : Text) (condition : Option Condition)
  | createTrigger (name : Text) (event : Event) (source : Text) (body : List BodyPart)
deriving DecidableEq, Repr

end TypedMirror.Sql
