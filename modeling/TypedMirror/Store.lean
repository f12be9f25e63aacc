import TypedMirror.Text.Numeral

/-!
# Stores

A store runs statements one after the other in one session and tells, when asked, what it had to say
on the last of them.
-/

namespace TypedMirror

inductive Warning.Level
  | note
  | warning
  | error
deriving DecidableEq, Repr

/-- What a store says on a statement. -/
structure Warning where
  level : Warning.Level
  code : Nat
  message : Text
deriving DecidableEq, Repr

namespace Warning

/-- The level of a label; one that is not known counts as a warning. -/
def Level.ofLabel (label : Text) : Level :=
  if Text.sameIgnoringCase label "note".toList then .note
  else if Text.sameIgnoringCase label "error".toList then .error
  else .warning

def Level.name : Level → Text
  | .note => "Note".toList
  | .warning => "Warning".toList
  | .error => "Error".toList

def text (w : Warning) : Text :=
  w.level.name ++ ' ' :: Numeral.write w.code ++ ": ".toList ++ w.message

end Warning

/-- A failure and what was being done when it arose, the innermost first. -/
structure Failure where
  root : Text
  contexts : List Text
deriving DecidableEq, Repr

/-- The texts of a failure, the outermost first. -/
def Failure.chain (f : Failure) : List Text := (f.root :: f.contexts).reverse

/-- The failure on one line. -/
def Failure.text (f : Failure) : Text := Text.joinWith ": ".toList f.chain

/-- A store whose sessions have states of type `S`. -/
structure Store (S : Type) where
  /-- Runs a statement and answers the number of rows it concerned. -/
  execute : Text → S → Except Failure Nat × S
  /-- What there is to say on the last statement. -/
  warnings : S → Except Failure (List Warning) × S

end TypedMirror
