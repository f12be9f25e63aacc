import TypedMirror.Registry.Basic
import TypedMirror.Sql.Printer

/-!
# Plans

What a commit runs: for each mirror its table, created empty and then filled from the source; for
each source three triggers that pass changes on to its mirrors.

The whitelisted mirrors of a source share one chain of conditions, so that a key goes to the first of
them, in order of registration, with a pattern that matches it.  Backfill and eviction follow the
same rule, and so the rows of a mirror do not depend on whether they were written before or after
the commit.  Mirrors of every key stand outside the chain.

A plan is made of statements; `Plan.text` writes them out, which fails only on an invalid name.
-/

namespace TypedMirror

/-- What makes one mirror, in statements of type `σ`. -/
structure MirrorPlan (σ : Type) where
  mirror : Text
  table : Text
  /-- The triggers of the source, then the mirror's own table. -/
  drops : List σ
  create : σ
  backfill : σ
deriving DecidableEq, Repr

/-- What makes one trigger. -/
structure TriggerPlan (σ : Type) where
  name : Text
  source : Text
  event : Sql.Event
  drop : σ
  create : σ
deriving DecidableEq, Repr

structure Plan (σ : Type) where
  mirrors : List (MirrorPlan σ)
  triggers : List (TriggerPlan σ)
deriving DecidableEq, Repr

namespace MirrorPlan

variable {σ τ : Type}

/-- The statements in the order in which they run. -/
def statements (p : MirrorPlan σ) : List σ := p.drops ++ [p.create, p.backfill]

def mapM (f : σ → Except MirrorError τ) (p : MirrorPlan σ) : Except MirrorError (MirrorPlan τ) :=
  return ⟨p.mirror, p.table, ← p.drops.mapM f, ← f p.create, ← f p.backfill⟩

end MirrorPlan

namespace TriggerPlan

variable {σ τ : Type}

def statements (p : TriggerPlan σ) : List σ := [p.drop, p.create]

def mapM (f : σ → Except MirrorError τ) (p : TriggerPlan σ) : Except MirrorError (TriggerPlan τ) :=
  return ⟨p.name, p.source, p.event, ← f p.drop, ← f p.create⟩

end TriggerPlan

namespace Plan

variable {σ τ : Type}

def statements (p : Plan σ) : List σ :=
  p.mirrors.flatMap MirrorPlan.statements ++ p.triggers.flatMap TriggerPlan.statements

def mapM (f : σ → Except MirrorError τ) (p : Plan σ) : Except MirrorError (Plan τ) :=
  return ⟨← p.mirrors.mapM (MirrorPlan.mapM f), ← p.triggers.mapM (TriggerPlan.mapM f)⟩

/-! ## Conditions on keys -/

open Sql

/-- The name of a source's trigger for an event. -/
def triggerName (event : Event) (source : Text) : Text := event.word ++ "_mm_".toList ++ source

/-- The key of a row matches one of the mirror's patterns. -/
def keyCondition (m : Mirror) (row : Option RowImage) : Condition :=
  .any (m.whitelist.map (.like ⟨row, m.keyColumn⟩))

/-- The mirror owns the key of a row: one of its patterns matches, and none of the mirrors before
it.  There is no condition for a mirror of every key. -/
def claimCondition (m : Mirror) (earlier : List Mirror) (row : Option RowImage) :
    Option Condition :=
  if m.isUnfiltered then none
  else
    let own := keyCondition m row
    match earlier with
    | [] => some own
    | es => some (.and (.group own) (.not (.group (.any (es.map (keyCondition · row))))))

/-- The whitelisted mirrors of the same source that are registered before the mirror. -/
def earlierClaims (r : Registry) (m : Mirror) : List Mirror :=
  ((r.mirrorsFor m.source).takeWhile (·.id != m.id)).filter (!·.isUnfiltered)

/-! ## Mirrors -/

def columnsOf (m : Mirror) : Columns := ⟨m.idColumn, m.objectColumn, m.keyColumn, m.valueColumn⟩

def mirrorPlan (m : Mirror) (earlier : List Mirror) : MirrorPlan Statement where
  mirror := m.id
  table := m.id
  drops := Event.all.map (fun e => .dropTrigger (triggerName e m.source)) ++ [.dropTable m.id]
  create := .createTable m.id (columnsOf m) m.columnType
  backfill := .backfill m.id (columnsOf m) m.source (claimCondition m earlier none)

/-! ## Triggers -/

/-- The row that decides which mirrors an event concerns. -/
def decidingRow : Event → RowImage
  | .delete => .old
  | .insert => .new
  | .update => .new

/-- The row with the id of the row before the change. -/
def isOldRow (m : Mirror) : Condition := .same ⟨none, m.idColumn⟩ ⟨some .old, m.idColumn⟩

/-- What keeps a mirror in step with an event. -/
def writeAction (m : Mirror) : Event → RowAction
  | .insert => .insert m.id (columnsOf m)
  | .update => .upsert m.id (columnsOf m)
  | .delete => .delete m.id (isOldRow m)

/-- Removes a row whose new key the mirror no longer owns.  No mirror owns a row without a key. -/
def evictAction (m : Mirror) (earlier : List Mirror) : RowAction :=
  let claim := (claimCondition m earlier (some .new)).getD .always
  .delete m.id (.and (isOldRow m) (.not (.orFalse claim)))

/-- The evictions of a chain of mirrors, `earlier` being the mirrors before it. -/
def evictions (earlier : List Mirror) : List Mirror → List RowAction
  | [] => []
  | m :: ms => evictAction m earlier :: evictions (earlier ++ [m]) ms

def triggerBody (event : Event) (mirrors : List Mirror) : List BodyPart :=
  let whitelisted := mirrors.filter (!·.isUnfiltered)
  let branches := whitelisted.map fun m =>
    (keyCondition m (some (decidingRow event)), writeAction m event)
  let evicted := if event = .update then evictions [] whitelisted else []
  .choose branches ::
    (evicted ++ (mirrors.filter (·.isUnfiltered)).map (writeAction · event)).map .run

def triggerPlan (source : Text) (mirrors : List Mirror) (event : Event) :
    TriggerPlan Statement where
  name := triggerName event source
  source := source
  event := event
  drop := .dropTrigger (triggerName event source)
  create := .createTrigger (triggerName event source) event source (triggerBody event mirrors)

/-! ## The plan of a registry -/

def ofRegistry (r : Registry) : Plan Statement where
  mirrors := r.mirrors.map fun m => mirrorPlan m (earlierClaims r m)
  triggers := r.sourceTables.flatMap fun source =>
    Event.all.map (triggerPlan source (r.mirrorsFor source))

/-- The plan with its statements written out. -/
def text (p : Plan Statement) : Except MirrorError (Plan Text) := p.mapM Statement.text

/-- The plan of a registry, written out. -/
def write (r : Registry) : Except MirrorError (Plan Text) := (ofRegistry r).text

end Plan

end TypedMirror
