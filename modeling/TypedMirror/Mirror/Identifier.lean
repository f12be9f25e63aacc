import TypedMirror.Mirror.Error

/-!
# Identifiers

The names that can be put into a statement as they are.
-/

namespace TypedMirror.Identifier

/-- One or more ASCII letters, digits, `_` or `$`. -/
def isValid (name : Text) : Bool := !name.isEmpty && name.all Text.isWordChar

def validate (name : Text) : Except MirrorError Unit :=
  if isValid name then .ok () else .error (.invalidIdentifier name)

/-- The name between backticks. -/
def quote (name : Text) : Except MirrorError Text :=
  (validate name).map fun _ => "`".toList ++ name ++ "`".toList

end TypedMirror.Identifier
