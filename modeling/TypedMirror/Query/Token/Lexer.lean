import TypedMirror.Query.Token
import TypedMirror.Text.Quoted

/-!
# Reading tokens

White space separates tokens and belongs to none.  At any other character one token starts, and
`extent` says of which kind it is and how many of the following characters it takes; the tokens
therefore tile the text, white space apart.
-/

namespace TypedMirror.Token

/-- The comparisons and connectors; where one starts with another, the longer comes first. -/
def operators : List Text :=
  ["<=>", "<=", ">=", "<>", "!=", "||", "&&", "=", "<", ">"].map String.toList

/-- The number of characters before the end of the line. -/
def lineLength (t : Text) : Nat := (t.takeWhile (· != '\n')).length

/-- Whether two dashes before the text open a comment. -/
def opensDashComment (t : Text) : Bool :=
  t.head?.all fun c => Text.isAsciiBlank c || Text.isAsciiControl c

/-- The characters after `c` that belong to a comment starting with it, if one does. -/
def commentExtent (c : Char) (r : Text) : Option Nat :=
  match c, r with
  | '#', r => some (lineLength r)
  | '-', '-' :: after => if opensDashComment after then some (1 + lineLength after) else none
  | '/', '*' :: after =>
    match Text.cut "*/".toList after with
    | some (body, _) => some (body.length + 3)
    | none => some (after.length + 1)
  | _, _ => none

/-- The digits after a decimal point that continues a number. -/
def fractionExtent : Text → Nat
  | '.' :: r =>
    let digits := r.takeWhile Char.isDigit
    if digits.isEmpty then 0 else digits.length + 1
  | _ => 0

/-- The characters up to and with the closing quote, if there is one. -/
def quoteExtent (quote : Char) (r : Text) : Option Nat :=
  (Quoted.close quote r).map fun p => p.1.length + 1

def backtick : Char := '\x60'

/-- The characters up to and with the closing backtick, if there is one. -/
def backtickExtent (r : Text) : Option Nat :=
  (Text.cut [backtick] r).map fun p => p.1.length + 1

/-- The kind of the token that starts with `c`, and how many of the characters after `c` it takes.
A quote that is never closed takes all of them. -/
def extent (c : Char) (r : Text) : Kind × Nat :=
  match commentExtent c r with
  | some n => (.comment, n)
  | none =>
    if Text.isWordChar c then
      let more := r.takeWhile Text.isWordChar
      if (c :: more).all Char.isDigit then
        (.number, more.length + fractionExtent (r.drop more.length))
      else (.word, more.length)
    else if c = backtick then
      match backtickExtent r with
      | some n => (.quotedName, n)
      | none => (.other, r.length)
    else if c = '\'' ∨ c = '"' then
      match quoteExtent c r with
      | some n => (.literal, n)
      | none => (.other, r.length)
    else
      match operators.find? fun op => (Text.after? op (c :: r)).isSome with
      | some op => (.operator, op.length - 1)
      | none => if [',', '.', '(', ')', ';', '*'].contains c then (.punct, 0) else (.other, 0)

/-- The tokens of a text that starts at position `start`. -/
def readFrom (start : Nat) : Text → List Token
  | [] => []
  | c :: r =>
    if Text.isAsciiBlank c then readFrom (start + 1) r
    else
      let e := extent c r
      let text := c :: r.take e.2
      ⟨e.1, text, start⟩ :: readFrom (start + text.length) (r.drop e.2)
termination_by t => t.length
decreasing_by all_goals simp only [List.length_cons, List.length_drop]; omega

/-- The tokens of a text, in order. -/
def read (t : Text) : List Token := readFrom 0 t

end TypedMirror.Token
