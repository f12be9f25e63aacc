import TypedMirror.KeyPattern
import TypedMirror.Query.Parse
import TypedMirror.Registry.Basic

/-!
# Routing

A read is sent to the mirrors of its tables when they are known to hold every row it can select:
the query is one statement that was read to its end, each routed table has exactly one mirror that
covers all its occurrences, and no routed table is named anywhere else.  Any other query stays as it
is, and the reason is kept.
-/

namespace TypedMirror.Routing

/-! ## Which keys a predicate can select -/

/-- Whether the value matches one of the patterns. -/
def matchesAny (patterns : List Text) (value : Text) : Bool :=
  patterns.any (KeyPattern.matchesExactly · value)

/-- Whether a store could let one of the patterns match the value, whatever its rules for case and
accents.  Text outside ASCII always could. -/
def mayClaim (patterns : List Text) (value : Text) : Bool :=
  patterns.any fun p =>
    !Text.isAscii p || !Text.isAscii value || KeyPattern.matchesIgnoringCase p value

/-- Whether rows with this key go to the mirror, and to none of those before it. -/
def isClaimed (m : Mirror) (earlier : List Mirror) (value : Text) : Bool :=
  matchesAny m.whitelist value && !earlier.any fun e => mayClaim e.whitelist value

/-- The contents of a literal, unless they hold a backslash: comparisons and patterns differ on
what that means. -/
def plainLiteral? (q : Query) (id : Nat) : Option Text :=
  (q.literal? id).filter fun value => !value.contains '\\'

/-- Whether every key that the predicate selects goes to the mirror. -/
def isPredicateClaimed (q : Query) (p : Predicate) (m : Mirror) (earlier : List Mirror) : Bool :=
  match p.operator, p.operand with
  | .eq, .literal id | .nullSafeEq, .literal id => (plainLiteral? q id).any (isClaimed m earlier)
  | .like, .literal id =>
    (plainLiteral? q id).any fun value =>
      if KeyPattern.hasWildcards value then earlier.isEmpty && m.whitelist.contains value
      else isClaimed m earlier value
  | .isIn, .literals ids =>
    !ids.isEmpty && ids.all fun id => (plainLiteral? q id).any (isClaimed m earlier)
  | _, _ => false

/-- Whether the predicate is about the key column of this occurrence of the mirror's source. -/
def isKeyPredicate (q : Query) (p : Predicate) (m : Mirror) (t : TableRef) : Bool :=
  Text.sameIgnoringCase p.column.name m.keyColumn &&
    match p.column.qualifier with
    | some qualifier => qualifier == t.key
    | none => q.tables.length == 1

/-- Whether every row that the query can read from this occurrence is in the mirror.  `earlier` are
the mirrors of the same source that take keys before it. -/
def covers (q : Query) (m : Mirror) (earlier : List Mirror) (t : TableRef) : Bool :=
  m.isUnfiltered ||
    (!q.usesOr &&
      q.predicates.any fun p => isKeyPredicate q p m t && isPredicateClaimed q p m earlier)

/-! ## Routes -/

/-- The mirrors of a list that cover every given occurrence, `earlier` being the whitelisted mirrors
before the list. -/
def eligible (q : Query) (refs : List TableRef) (earlier : List Mirror) :
    List Mirror → List Mirror
  | [] => []
  | m :: ms =>
    let others := eligible q refs (if m.isUnfiltered then earlier else earlier ++ [m]) ms
    if refs.all (covers q m earlier) then m :: others else others

/-- The one mirror of a source that covers all its occurrences. -/
def choose (mirrors : List Mirror) (q : Query) (source : Text) : Option Mirror :=
  match eligible q (q.references source) [] (mirrors.filter (·.source == source)) with
  | [m] => some m
  | _ => none

/-- A source table and the mirror read in its place. -/
structure Route where
  source : Text
  mirror : Text
deriving DecidableEq, Repr

/-- The routes of a query, in order of the sources. -/
def routesOf (mirrors : List Mirror) (q : Query) : List Route :=
  (Registry.sourcesOf mirrors).filterMap fun source =>
    if (q.references source).isEmpty then none
    else (choose mirrors q source).map fun m => ⟨source, m.id⟩

/-- The name to read from in place of a table. -/
def redirect (routes : List Route) (table : Text) : Text :=
  match routes.find? (·.source == table) with
  | some route => route.mirror
  | none => table

/-- The template with its table markers taken out. -/
def withoutTables (q : Query) : Text :=
  Template.expand (fun m => if m.kind = .table then some [] else none) q.template

/-! ## Decisions -/

/-- Why a query stays as it is. -/
inductive Skip
  /-- It mentions no mirrored table. -/
  | noMirroredTable
  | notImplemented
  | notFullyParsed
  /-- Writes go to the source, where they are passed on. -/
  | notARead
  | noEligibleMirror
  /-- A routed table is named outside its references. -/
  | ambiguous
deriving DecidableEq, Repr

/-- What becomes of a query. -/
structure Decision where
  query : Text
  redirected : Text
  /-- Whether the query was read to its end. -/
  parsed : Bool
  routes : List Route
  skipped : Option Skip
deriving DecidableEq, Repr

def Decision.unchanged (query : Text) (parsed : Bool) (reason : Skip) : Decision :=
  ⟨query, query, parsed, [], some reason⟩

/-- The decision for a query that is a read and was read to its end. -/
def readDecision (mirrors : List Mirror) (query : Text) (q : Query) : Decision :=
  let routes := routesOf mirrors q
  if routes.isEmpty then .unchanged query true .noEligibleMirror
  else if routes.any fun r => Text.mentions (withoutTables q) r.source then
    .unchanged query true .ambiguous
  else ⟨query, q.render (redirect routes), true, routes, none⟩

/-- The decision for a query, the mirrors being in order of precedence. -/
def decision (mirrors : List Mirror) (query : Text) : Decision :=
  if !(Registry.sourcesOf mirrors).any (Text.has query) then
    .unchanged query false .noMirroredTable
  else
    match Query.parse query with
    | .error _ => .unchanged query false .notImplemented
    | .ok q =>
      if !q.fullyParsed then .unchanged query false .notFullyParsed
      else if q.operation ≠ some .select then .unchanged query true .notARead
      else readDecision mirrors query q

/-- The query as it is to be sent to the store. -/
def apply (mirrors : List Mirror) (query : Text) : Text := (decision mirrors query).redirected

end TypedMirror.Routing
