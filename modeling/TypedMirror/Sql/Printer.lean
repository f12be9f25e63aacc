import TypedMirror.Mirror.Identifier
import TypedMirror.Sql.Statement
import TypedMirror.Text.Quoted

/-!
# Statements as text

A name is checked when it is quoted, so a statement has a text only if all its names are valid
identifiers.
-/

namespace TypedMirror.Sql

def Event.word : Event → Text
  | .insert => "insert".toList
  | .update => "update".toList
  | .delete => "delete".toList

def Event.keyword (e : Event) : Text := Text.upper e.word

def RowImage.keyword : RowImage → Text
  | .old => "OLD".toList
  | .new => "NEW".toList

open Identifier (quote)

def Column.text (c : Column) : Except MirrorError Text := do
  let name ← quote c.name
  return match c.row with
    | none => name
    | some row => row.keyword ++ '.' :: name

def Condition.text : Condition → Except MirrorError Text
  | .always => return "TRUE".toList
  | .never => return "FALSE".toList
  | .same a b => return (← a.text) ++ " = ".toList ++ (← b.text)
  | .like key pattern => return (← key.text) ++ " LIKE ".toList ++ Quoted.write pattern
  | .or a b => return (← a.text) ++ " OR ".toList ++ (← b.text)
  | .and a b => return (← a.text) ++ " AND ".toList ++ (← b.text)
  | .not a => return "NOT ".toList ++ (← a.text)
  | .group a => return '(' :: (← a.text) ++ [')']
  | .orFalse a => return "COALESCE(".toList ++ (← a.text) ++ ", FALSE)".toList

/-- The columns with their names quoted. -/
def Columns.quoted (c : Columns) : Except MirrorError Columns :=
  return ⟨← quote c.id, ← quote c.object, ← quote c.key, ← quote c.value⟩

def Columns.all (c : Columns) : List Text := [c.id, c.object, c.key, c.value]

/-- The columns, each behind `lead`, with commas between them. -/
def Columns.listed (c : Columns) (lead : String) : Text :=
  Text.joinWith ", ".toList (c.all.map (lead.toList ++ ·))

/-- The insertion of a new row into a table. -/
def insertion (table : Text) (c : Columns) : Text :=
  "INSERT INTO ".toList ++ table ++ " (".toList ++ c.listed "" ++ ") VALUES (".toList
    ++ c.listed "NEW." ++ [')']

def RowAction.text : RowAction → Except MirrorError Text
  | .insert table columns => do
    return insertion (← quote table) (← columns.quoted)
  | .upsert table columns => do
    let table ← quote table
    let c ← columns.quoted
    let assign := fun column => column ++ " = NEW.".toList ++ column
    return insertion table c ++ " ON DUPLICATE KEY UPDATE ".toList
      ++ Text.joinWith ", ".toList ([c.object, c.key, c.value].map assign)
  | .delete table condition =>
    return "DELETE FROM ".toList ++ (← quote table) ++ " WHERE ".toList ++ (← condition.text)

def margin : Text := "  ".toList

/-- The lines of a branch, the first of which opens with `IF`. -/
def branchLines (keyword : String) (branch : Condition × RowAction) :
    Except MirrorError (List Text) :=
  return [margin ++ keyword.toList ++ ' ' :: (← branch.1.text) ++ " THEN".toList,
    margin ++ margin ++ (← branch.2.text) ++ [';']]

def BodyPart.lines : BodyPart → Except MirrorError (List Text)
  | .run action => return [margin ++ (← action.text) ++ [';']]
  | .choose [] => return []
  | .choose (b :: bs) => do
    let first ← branchLines "IF" b
    let others ← bs.mapM (branchLines "ELSEIF")
    return first ++ others.flatten ++ [margin ++ "END IF;".toList]

/-- The columns and keys of a new table. -/
def tableLines (c : Columns) (valueType : Text) : List Text :=
  [c.id ++ " BIGINT UNSIGNED NOT NULL".toList, c.object ++ " BIGINT UNSIGNED NOT NULL".toList,
    c.key ++ " VARCHAR(255)".toList, c.value ++ ' ' :: valueType,
    "PRIMARY KEY (".toList ++ c.id ++ [')'], "KEY (".toList ++ c.object ++ [')'],
    "KEY (".toList ++ c.key ++ [')']]

def Statement.text : Statement → Except MirrorError Text
  | .dropTrigger name => return "DROP TRIGGER IF EXISTS ".toList ++ (← quote name)
  | .dropTable table => return "DROP TABLE IF EXISTS ".toList ++ (← quote table)
  | .createTable table columns valueType => do
    let table ← quote table
    let c ← columns.quoted
    return "CREATE TABLE ".toList ++ table ++ " (\n".toList
      ++ Text.joinWith ",\n".toList ((tableLines c valueType).map (margin ++ ·)) ++ "\n)".toList
  | .backfill table columns source condition => do
    let table ← quote table
    let source ← quote source
    let listed := (← columns.quoted).listed ""
    let copy := "INSERT INTO ".toList ++ table ++ " (".toList ++ listed ++ ") SELECT ".toList
      ++ listed ++ " FROM ".toList ++ source
    match condition with
    | none => return copy
    | some c => return copy ++ " WHERE ".toList ++ (← c.text)
  | .createTrigger name event source body => do
    let lines ← body.mapM BodyPart.lines
    return "CREATE TRIGGER ".toList ++ (← quote name) ++ " AFTER ".toList ++ event.keyword
      ++ " ON ".toList ++ (← quote source) ++ " FOR EACH ROW\nBEGIN\n".toList
      ++ Text.joinWith ['\n'] lines.flatten ++ "\nEND".toList

end TypedMirror.Sql
