import TypedMirror.Text

/-!
# Errors of mirror registration

Every cause is found before anything is registered.
-/

namespace TypedMirror

/-- What may be attempted only while the setup window is open. -/
inductive SetupStep
  | registering
  | whitelisting
deriving DecidableEq, Repr

def SetupStep.phrase : SetupStep → Text
  | .registering => "registering a mirror".toList
  | .whitelisting => "whitelisting a key".toList

inductive MirrorError
  /-- The source table is not in the catalog. -/
  | unsupportedTable (table : Text)
  /-- The value type is not one of the column types. -/
  | unsupportedType (written : Text)
  /-- A key pattern of blanks only. -/
  | emptyKeyPattern (mirror : Text)
  /-- The setup window has been closed. -/
  | lifecycleViolation (step : SetupStep)
  | duplicateMirror (id : Text)
  | unknownMirror (id : Text)
  /-- A table or column name that cannot stand in a statement. -/
  | invalidIdentifier (name : Text)
deriving DecidableEq, Repr

def MirrorError.message : MirrorError → Text
  | .unsupportedTable table =>
    "mirroring of table `".toList ++ table ++ "` is not supported".toList
  | .unsupportedType written => "value type `".toList ++ written ++ "` is not supported".toList
  | .emptyKeyPattern mirror =>
    "key pattern for mirror ".toList ++ mirror ++ " cannot be empty".toList
  | .lifecycleViolation step =>
    step.phrase ++ " is only allowed while the setup window is open".toList
  | .duplicateMirror id =>
    "mirror ".toList ++ id ++ " already exists; whitelist additional keys instead".toList
  | .unknownMirror id => "mirror ".toList ++ id ++ " is not registered".toList
  | .invalidIdentifier name => "invalid identifier `".toList ++ name ++ "`".toList

end TypedMirror
