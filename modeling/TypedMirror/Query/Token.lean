import TypedMirror.Text

/-!
# Tokens of a query
-/

namespace TypedMirror

inductive Token.Kind
  /-- A bare identifier or keyword. -/
  | word
  /-- An identifier between backticks. -/
  | quotedName
  /-- A quoted string literal. -/
  | literal
  | number
  /-- A comparison, or one of the connectors `||` and `&&`. -/
  | operator
  | punct
  /-- To the end of the line, or a block, closed or not. -/
  | comment
  /-- Anything else, a quote that is never closed included. -/
  | other
deriving DecidableEq, Repr

/-- A token, with its text as written and the position where it starts. -/
structure Token where
  kind : Token.Kind
  text : Text
  start : Nat
deriving DecidableEq, Repr

namespace Token

/-- The position just after the token. -/
def stop (t : Token) : Nat := t.start + t.text.length

/-- Keywords are read without regard to case. -/
def isKeyword (t : Token) (word : String) : Bool :=
  t.kind = .word && Text.sameIgnoringCase t.text word.toList

def isOperator (t : Token) (symbol : String) : Bool :=
  t.kind = .operator && t.text == symbol.toList

def isPunct (t : Token) (c : Char) : Bool := t.kind = .punct && t.text == [c]

/-- The name a token spells, without backticks. -/
def name (t : Token) : Text :=
  match t.kind with
  | .quotedName => t.text.tail.dropLast
  | _ => t.text

end Token

end TypedMirror
