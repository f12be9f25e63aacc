import TypedMirror.Catalog
import TypedMirror.Mirror.Identifier
import TypedMirror.Mirror.ValueType

/-!
# Mirrors

A mirror is a typed shadow of a metadata table, possibly of some keys only.  Its table, whose name
is also the mirror's id, is named after the source and the type:

    wp_postmeta, VARCHAR(16)  gives  wp_postmeta_mm_varchar_16
    wp_postmeta, INTEGER      gives  wp_postmeta_mm_integer
-/

namespace TypedMirror

structure Mirror where
  /-- The name of the mirror's table, by which the mirror is known. -/
  id : Text
  source : Text
  idColumn : Text
  objectColumn : Text
  keyColumn : Text
  valueColumn : Text
  valueType : ValueType
  typeArgs : List Nat
  /-- The key patterns that are mirrored; none stands for every key. -/
  whitelist : List Text
deriving DecidableEq, Repr

namespace Mirror

/-- Whether every key is mirrored. -/
def isUnfiltered (m : Mirror) : Bool := m.whitelist.isEmpty

/-- The mirrored columns, in table order. -/
def columns (m : Mirror) : List Text := [m.idColumn, m.objectColumn, m.keyColumn, m.valueColumn]

/-- The type of the value column. -/
def columnType (m : Mirror) : Text := m.valueType.columnType m.typeArgs

/-- The part of a mirror's name that its type gives. -/
def typeSuffix (t : ValueType) (args : List Nat) : Text :=
  Text.lower t.keyword ++ (if args.isEmpty then [] else '_' :: ValueType.joinArgs ['_'] args)

/-- The name of the mirror of a source with a type. -/
def nameFor (source : Text) (t : ValueType) (args : List Nat) : Text :=
  source ++ "_mm_".toList ++ typeSuffix t args

/-- A mirror of a table of the catalog that takes every key. -/
def define (c : Catalog) (source : Text) (t : ValueType) (args : List Nat) :
    Except MirrorError Mirror :=
  match c.get? source with
  | none => .error (.unsupportedTable source)
  | some table => do
    [source, table.idColumn, table.objectColumn, table.keyColumn, table.valueColumn].forM
      Identifier.validate
    let name := nameFor (c.fullName table) t args
    Identifier.validate name
    return {
      id := name
      source := source
      idColumn := table.idColumn
      objectColumn := table.objectColumn
      keyColumn := table.keyColumn
      valueColumn := table.valueColumn
      valueType := t
      typeArgs := args
      whitelist := [] }

/-- A mirror from a written type and written arguments. -/
def read (c : Catalog) (source type : Text) (args : List Text) : Except MirrorError Mirror := do
  let t ← ValueType.read type
  define c source t (ValueType.readArgs args)

/-- The mirror with one more key pattern. -/
def addKey (m : Mirror) (pattern : Text) : Except MirrorError Mirror :=
  if (Text.trim pattern).isEmpty then .error (.emptyKeyPattern m.id)
  else .ok { m with whitelist := m.whitelist ++ [pattern] }

/-- The mirror with more key patterns, added one after the other. -/
def addKeys (m : Mirror) (patterns : List Text) : Except MirrorError Mirror :=
  patterns.foldlM addKey m

/-- The keys that a mirror takes, in words. -/
def keysText (m : Mirror) : Text :=
  if m.isUnfiltered then "all keys".toList else Text.joinWith ", ".toList m.whitelist

/-- The mirror on one line. -/
def describe (m : Mirror) : Text :=
  m.id ++ " <- ".toList ++ m.source ++ " as ".toList ++ m.columnType ++ " (".toList ++ m.keysText
    ++ [')']

end Mirror

end TypedMirror
