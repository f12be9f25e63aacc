import TypedMirror.Commit
import TypedMirror.Json
import TypedMirror.Routing

/-!
# Reports

Queries, routing decisions, plans and commits as JSON.
-/

namespace TypedMirror

/-! ## Queries -/

def Operation.word : Operation → Text
  | .select => "SELECT".toList
  | .update => "UPDATE".toList
  | .delete => "DELETE".toList

def JoinKind.word : JoinKind → Text
  | .inner => "INNER".toList
  | .left => "LEFT".toList
  | .right => "RIGHT".toList
  | .outer => "OUTER".toList
  | .cross => "CROSS".toList

def Operator.word : Operator → Text
  | .eq => "Eq".toList
  | .notEq => "NotEq".toList
  | .lt => "Lt".toList
  | .gt => "Gt".toList
  | .ltEq => "LtEq".toList
  | .gtEq => "GtEq".toList
  | .nullSafeEq => "NullSafeEq".toList
  | .like => "Like".toList
  | .notLike => "NotLike".toList
  | .is => "Is".toList
  | .isNot => "IsNot".toList
  | .isIn => "In".toList
  | .notIn => "NotIn".toList

namespace Report

open Json (fields)

def ofTable (t : TableRef) : Json :=
  fields [("name", .text t.name), ("alias", .ofOption t.aliasName)]

def ofColumn (c : ColumnRef) : Json :=
  fields [("qualifier", .ofOption c.qualifier), ("name", .text c.name), ("raw", .text c.raw)]

def ofJoin (j : Join) : Json :=
  fields [("kind", .text j.kind.word), ("table", ofTable j.table),
    ("on", fields [("left", ofColumn j.left), ("operator", .text j.operator.word),
      ("right", ofColumn j.right)])]

def ofOperand : Operand → Json
  | .literal id => fields [("Literal", .number id)]
  | .literals ids => fields [("LiteralList", .array (ids.map fun (id : Nat) => .number id))]
  | .other source => fields [("Other", .text source)]

def ofPredicate (p : Predicate) : Json :=
  fields [("column", ofColumn p.column), ("operator", .text p.operator.word),
    ("operand", ofOperand p.operand)]

/-- The literals under their numbers. -/
def ofLiterals (literals : List Text) : Json :=
  .object (literals.zipIdx.map fun l => (Numeral.write (l.2 + 1), .text l.1))

def ofQuery (q : Query) : Json :=
  fields [("operation", .text (q.operation.elim "UNKNOWN".toList Operation.word)),
    ("tables", .array (q.tables.map ofTable)), ("joins", .array (q.joins.map ofJoin)),
    ("where_columns", .array (q.predicates.map ofPredicate)), ("uses_or", .bool q.usesOr),
    ("literals", ofLiterals q.literals), ("template", .text q.template),
    ("fully_parsed", .bool q.fullyParsed)]

/-! ## Routing -/

def skipWord : Routing.Skip → Text
  | .noMirroredTable => "no_mirrored_table".toList
  | .notImplemented => "not_implemented".toList
  | .notFullyParsed => "not_fully_parsed".toList
  | .notARead => "not_a_read".toList
  | .noEligibleMirror => "no_eligible_mirror".toList
  | .ambiguous => "ambiguous".toList

def ofRoute (r : Routing.Route) : Json :=
  fields [("source_table", .text r.source), ("mirror_table", .text r.mirror)]

def ofDecision (d : Routing.Decision) : Json :=
  fields [("original", .text d.query), ("rewritten", .text d.redirected), ("parsed", .bool d.parsed),
    ("routed", .array (d.routes.map ofRoute)), ("skipped", .ofOption (d.skipped.map skipWord))]

/-! ## Plans and commits -/

def ofMirrorPlan (p : MirrorPlan Text) : Json :=
  fields [("mirror", .text p.mirror), ("mirror_table", .text p.table),
    ("drops", .ofTexts p.drops), ("create", .text p.create), ("backfill", .text p.backfill)]

def ofTriggerPlan (p : TriggerPlan Text) : Json :=
  fields [("name", .text p.name), ("source_table", .text p.source), ("event", .text p.event.word),
    ("drop", .text p.drop), ("create", .text p.create)]

def ofPlan (p : Plan Text) : Json :=
  fields [("mirrors", .array (p.mirrors.map ofMirrorPlan)),
    ("triggers", .array (p.triggers.map ofTriggerPlan))]

def ofCommit (r : CommitReport) : Json :=
  fields [("mirrors", .array (r.mirrors.map fun m =>
      fields [("mirror", .text m.mirror), ("mirror_table", .text m.table),
        ("rows_backfilled", .number m.rows)])),
    ("triggers", .ofTexts r.triggers)]

end Report

end TypedMirror
