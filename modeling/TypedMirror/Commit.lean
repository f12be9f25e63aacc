import TypedMirror.Plan.Basic
import TypedMirror.Store

/-!
# Committing

A commit runs the statements of a plan in order and stops at the first that fails, or that the store
has more than notes to say on.  What was done before it stays done, and committing again starts
afresh, since every table and trigger is dropped before it is created.
-/

namespace TypedMirror

inductive CommitError
  /-- A statement for a mirror or trigger failed, or raised warnings. -/
  | statement (subject reason : Text)
  /-- The store could not be asked for warnings. -/
  | store (failure : Failure)
  /-- The plan could not be written. -/
  | definition (e : MirrorError)
deriving DecidableEq, Repr

def CommitError.message : CommitError → Text
  | .statement subject reason =>
    "synthesis failed for ".toList ++ subject ++ ": ".toList ++ reason
  | .store failure => "store error: ".toList ++ failure.text
  | .definition e => e.message

structure CommittedMirror where
  mirror : Text
  table : Text
  /-- The rows copied from the source. -/
  rows : Nat
deriving DecidableEq, Repr

structure CommitReport where
  mirrors : List CommittedMirror
  triggers : List Text
deriving DecidableEq, Repr

namespace Commit

/-- A part of a commit: it changes the session, and answers or stops. -/
abbrev Action (S α : Type) := ExceptT CommitError (StateM S) α

variable {S : Type} (store : Store S) (subject : Text)

/-- Runs a statement for a mirror or trigger. -/
def execute (sql : Text) : Action S Nat := fun s =>
  match store.execute sql s with
  | (.ok rows, s') => (.ok rows, s')
  | (.error f, s') => (.error (.statement subject f.text), s')

/-- The warnings that stop a commit, in one text. -/
def reasonOf (ws : List Warning) : Text := Text.joinWith "; ".toList (ws.map (·.text))

/-- Stops if the store has more than notes to say. -/
def checkWarnings : Action S Unit := fun s =>
  match store.warnings s with
  | (.error f, s') => (.error (.store f), s')
  | (.ok ws, s') =>
    match ws.filter (·.level ≠ .note) with
    | [] => (.ok (), s')
    | w :: rest => (.error (.statement subject (reasonOf (w :: rest))), s')

/-- Runs a statement and looks at what the store says on it. -/
def executeChecked (sql : Text) : Action S Nat := do
  let rows ← execute store subject sql
  checkWarnings store subject
  return rows

def mirror (p : MirrorPlan Text) : Action S CommittedMirror := do
  let _ ← p.drops.mapM (execute store p.mirror)
  let _ ← executeChecked store p.mirror p.create
  let rows ← executeChecked store p.mirror p.backfill
  return ⟨p.mirror, p.table, rows⟩

def trigger (p : TriggerPlan Text) : Action S Text := do
  let _ ← execute store p.name p.drop
  let _ ← executeChecked store p.name p.create
  return p.name

/-- Commits a plan. -/
def plan (p : Plan Text) : Action S CommitReport := do
  let mirrors ← p.mirrors.mapM (mirror store)
  let triggers ← p.triggers.mapM (trigger store)
  return ⟨mirrors, triggers⟩

/-- Commits the mirrors of a registry. -/
def registry (r : Registry) : Action S CommitReport := do
  match Plan.write r with
  | .error e => throw (.definition e)
  | .ok p => plan store p

end Commit

end TypedMirror
