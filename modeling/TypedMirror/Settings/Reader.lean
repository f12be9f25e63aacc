import TypedMirror.Settings.Basic
import TypedMirror.Yaml.Node
import TypedMirror.Yaml.Scalar

/-!
# Reading settings

Settings are written as a YAML document.  A part that is not written takes its default, and so does
one whose value is left out; keys that are not known are passed over.
-/

namespace TypedMirror

namespace Yaml

/-- Why a document cannot be read. -/
inductive Error
  | malformed
  | severalDocuments
  | expected (what : String)
  | missing (field : String)
  | repeated (field : String)
deriving DecidableEq, Repr

def Error.message : Error → Text
  | .malformed => "the document is not well formed".toList
  | .severalDocuments => "there is more than one document".toList
  | .expected what => "expected ".toList ++ what.toList
  | .missing field => "field `".toList ++ field.toList ++ "` is missing".toList
  | .repeated field => "field `".toList ++ field.toList ++ "` is repeated".toList

namespace Node

/-- The text of a scalar, however it is written. -/
def text : Node → Except Error Text
  | .scalar _ t => .ok t
  | _ => .error (.expected "a text")

/-- A text, or nothing where a plain word says so. -/
def optionalText : Node → Except Error (Option Text)
  | .scalar true t => .ok (if Scalar.isNull t then none else some t)
  | n => n.text.map some

/-- A plain integer from zero up to a bound. -/
def natural (bound : Nat) : Node → Except Error Nat
  | .scalar true t =>
    match Scalar.meaning t with
    | .int n => if 0 ≤ n ∧ n ≤ bound then .ok n.toNat else .error (.expected "a number")
    | _ => .error (.expected "a number")
  | _ => .error (.expected "a number")

/-- The items of a sequence; a value left out has none. -/
def items : Node → Except Error (List Node)
  | .sequence items => .ok items
  | .scalar true [] => .ok []
  | _ => .error (.expected "a sequence")

/-- The items of a sequence, each read in the same way. -/
def list {α : Type} (read : Node → Except Error α) (n : Node) : Except Error (List α) := do
  (← n.items).mapM read

/-- The entries of a mapping; a value left out has none. -/
def entries : Node → Except Error (List (Text × Node))
  | .mapping entries => entries.mapM fun e => return (← e.1.text, e.2)
  | .scalar true [] => .ok []
  | _ => .error (.expected "a mapping")

/-- The entries of a mapping in which no known key is written twice. -/
def record (known : List String) (n : Node) : Except Error (List (Text × Node)) := do
  let es ← n.entries
  match known.find? fun k => 1 < es.countP (·.1 == k.toList) with
  | some k => .error (.repeated k)
  | none => return es

end Node

/-- A field of a record, if it is written. -/
def optional {α : Type} (es : List (Text × Node)) (field : String)
    (read : Node → Except Error α) : Except Error (Option α) :=
  match es.lookup field.toList with
  | none => .ok none
  | some n => (read n).map some

/-- A field of a record, or its default. -/
def withDefault {α : Type} (es : List (Text × Node)) (field : String) (default : α)
    (read : Node → Except Error α) : Except Error α :=
  return (← optional es field read).getD default

/-- A field that has to be written. -/
def required {α : Type} (es : List (Text × Node)) (field : String)
    (read : Node → Except Error α) : Except Error α := do
  match ← optional es field read with
  | some a => return a
  | none => .error (.missing field)

/-- The only document of a text; an empty text is a document left out. -/
def document (t : Text) : Except Error Node :=
  match documents t with
  | none => .error .malformed
  | some [] => .ok .absent
  | some [n] => .ok n
  | some _ => .error .severalDocuments

end Yaml

open Yaml

def Database.ofYaml (n : Node) : Except Yaml.Error Database := do
  let es ← n.record ["host", "port", "database", "username", "password", "credentials_env",
    "max_connections"]
  let d : Database := {}
  return {
    host := ← withDefault es "host" d.host Node.text
    tcpPort := ← withDefault es "port" d.tcpPort (Node.natural 65535)
    database := ← withDefault es "database" d.database Node.text
    username := ← withDefault es "username" d.username Node.text
    password := ← withDefault es "password" d.password Node.optionalText
    credentialsVariable := ←
      withDefault es "credentials_env" d.credentialsVariable Node.optionalText
    maxConnections := ←
      withDefault es "max_connections" d.maxConnections (Node.natural 4294967295) }

def MetaTable.ofYaml (n : Node) : Except Yaml.Error MetaTable := do
  let es ← n.record ["name", "id_column", "object_id_column", "key_column", "value_column"]
  let table : MetaTable := {
    name := ← required es "name" Node.text
    idColumn := ← required es "id_column" Node.text
    objectColumn := ← required es "object_id_column" Node.text }
  return { table with
    keyColumn := ← withDefault es "key_column" table.keyColumn Node.text
    valueColumn := ← withDefault es "value_column" table.valueColumn Node.text }

def Catalog.ofYaml (n : Node) : Except Yaml.Error Catalog := do
  let es ← n.record ["table_prefix", "tables"]
  return {
    lead := ← withDefault es "table_prefix" Catalog.standard.lead Node.text
    tables := ← withDefault es "tables" Catalog.standard.tables (Node.list MetaTable.ofYaml) }

/-- A type argument is a plain 64-bit integer or a text. -/
def TypeArg.ofYaml : Node → Except Yaml.Error TypeArg
  | .scalar false t => .ok (.text t)
  | .scalar true t =>
    match Scalar.meaning t with
    | .text => .ok (.text t)
    | .int n => if n < Nat.pow 2 63 then .ok (.int n) else .error (.expected "an integer or a text")
    | _ => .error (.expected "an integer or a text")
  | _ => .error (.expected "an integer or a text")

def Declaration.ofYaml (n : Node) : Except Yaml.Error Declaration := do
  let es ← n.record ["table", "type", "args", "keys"]
  return {
    table := ← required es "table" Node.text
    type := ← required es "type" Node.text
    args := ← withDefault es "args" [] (Node.list TypeArg.ofYaml)
    keys := ← withDefault es "keys" [] (Node.list Node.text) }

namespace Settings

def logLevelOfYaml (n : Node) : Except Yaml.Error Text := do
  let es ← n.record ["level"]
  withDefault es "level" ({} : Settings).logLevel Node.text

def ofYaml (n : Node) : Except Yaml.Error Settings := do
  let es ← n.record ["database", "catalog", "mirrors", "log"]
  let s : Settings := {}
  return {
    database := ← withDefault es "database" s.database Database.ofYaml
    catalog := ← withDefault es "catalog" s.catalog Catalog.ofYaml
    mirrors := ← withDefault es "mirrors" s.mirrors (Node.list Declaration.ofYaml)
    logLevel := ← withDefault es "log" s.logLevel logLevelOfYaml }

/-- Why settings cannot be used. -/
inductive Error
  | yaml (e : Yaml.Error)
  | flawed (f : Flaw)
deriving DecidableEq, Repr

/-- The settings that a text holds. -/
def read (t : Text) : Except Error Settings := do
  let s ← ((document t).bind ofYaml).mapError .yaml
  match s.flaw? with
  | some f => .error (.flawed f)
  | none => return s

end Settings

end TypedMirror
