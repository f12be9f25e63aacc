import TypedMirror.Registry.Basic

/-!
# Declared mirrors

A declaration names a source, a type and the keys to whitelist.  Declarations are registered one
after the other, and the first that fails stops the registration.
-/

namespace TypedMirror

/-- A type argument, given as a number or as text. -/
inductive TypeArg
  | int (n : Int)
  | text (t : Text)
deriving DecidableEq, Repr

def TypeArg.written : TypeArg → Text
  | .int n => Numeral.writeInt n
  | .text t => t

structure Declaration where
  table : Text
  type : Text
  args : List TypeArg
  keys : List Text
deriving DecidableEq, Repr

namespace Setup

/-- Registers a declared mirror and whitelists its keys. -/
def declare (s : Setup) (d : Declaration) : Except MirrorError Setup := do
  let (s', id) ← s.register d.table d.type (d.args.map TypeArg.written)
  d.keys.foldlM (fun s key => s.addKey id key) s'

/-- The setup in which all declarations of a catalog are registered. -/
def ofDeclarations (c : Catalog) (ds : List Declaration) : Except MirrorError Setup :=
  ds.foldlM declare (start c)

end Setup

/-- The registry of the declarations. -/
def Registry.ofDeclarations (c : Catalog) (ds : List Declaration) : Except MirrorError Registry :=
  return (← Setup.ofDeclarations c ds).finalize

end TypedMirror
