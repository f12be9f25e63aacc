import TypedMirror.Mirror.Basic

/-!
# The registry

Mirrors are registered in two phases.  While the host's setup window is open a `Setup` takes mirrors
and keys; it is then frozen into a `Registry`, the only form in which mirrors are planned and
queries routed.  Both are lists in order of registration, with an index of the positions of the ids.
-/

namespace TypedMirror

/-- The host's setup window.  Once closed it stays closed. -/
inductive Window
  | isOpen
  | closed
deriving DecidableEq, Repr

/-- The positions of mirrors in their list, by id. -/
abbrev Index := List (Text × Nat)

/-- The position that the index gives for an id, and the mirror there. -/
def Index.entry? (index : Index) (mirrors : List Mirror) (id : Text) : Option (Nat × Mirror) := do
  let i ← index.lookup id
  let m ← mirrors[i]?
  return (i, m)

/-- Registration as long as the window is open. -/
structure Setup where
  catalog : Catalog
  window : Window
  mirrors : List Mirror
  index : Index
deriving DecidableEq, Repr

/-- The registered mirrors, in order of registration. -/
structure Registry where
  catalog : Catalog
  mirrors : List Mirror
  index : Index
deriving DecidableEq, Repr

namespace Setup

/-- Nothing registered, and the window open. -/
def start (c : Catalog) : Setup := ⟨c, .isOpen, [], []⟩

def ensureOpen (s : Setup) (step : SetupStep) : Except MirrorError Unit :=
  if s.window = .isOpen then .ok () else .error (.lifecycleViolation step)

def entry? (s : Setup) (id : Text) : Option (Nat × Mirror) := s.index.entry? s.mirrors id

def lookup (s : Setup) (id : Text) : Option Mirror := (s.entry? id).map (·.2)

/-- Registers a mirror that is already defined. -/
def add (s : Setup) (m : Mirror) : Except MirrorError Setup := do
  s.ensureOpen .registering
  match s.index.lookup m.id with
  | some _ => .error (.duplicateMirror m.id)
  | none =>
    return { s with
      mirrors := s.mirrors ++ [m]
      index := (m.id, s.mirrors.length) :: s.index }

/-- Defines a mirror over the setup's catalog and registers it. -/
def register (s : Setup) (source type : Text) (args : List Text) :
    Except MirrorError (Setup × Text) := do
  s.ensureOpen .registering
  let m ← Mirror.read s.catalog source type args
  let s' ← s.add m
  return (s', m.id)

/-- Whitelists one more key pattern of a registered mirror. -/
def addKey (s : Setup) (id pattern : Text) : Except MirrorError Setup := do
  s.ensureOpen .whitelisting
  match s.entry? id with
  | none => .error (.unknownMirror id)
  | some (i, m) =>
    let m' ← m.addKey pattern
    return { s with mirrors := s.mirrors.set i m' }

def close (s : Setup) : Setup := { s with window := .closed }

/-- Drops every mirror, whatever the window. -/
def reset (s : Setup) : Setup := { s with mirrors := [], index := [] }

/-- The registry of what has been registered. -/
def finalize (s : Setup) : Registry := ⟨s.catalog, s.mirrors, s.index⟩

end Setup

namespace Registry

def lookup (r : Registry) (id : Text) : Option Mirror := (r.index.entry? r.mirrors id).map (·.2)

/-- The source tables, each once, in order of first registration. -/
def sourcesOf (mirrors : List Mirror) : List Text :=
  mirrors.foldl (fun seen m => if seen.contains m.source then seen else seen ++ [m.source]) []

def sourceTables (r : Registry) : List Text := sourcesOf r.mirrors

/-- The mirrors of one source, in order of registration. -/
def mirrorsFor (r : Registry) (source : Text) : List Mirror :=
  r.mirrors.filter (·.source == source)

end Registry

end TypedMirror
