import TypedMirror.Text

/-!
# Key patterns

The patterns of SQL's `LIKE`: `%` stands for any run of characters, `_` for exactly one, and a
backslash makes the next character stand for itself.  A value is matched from left to right.  Each
run takes as little as it can, and one character more whenever an item behind it does not fit; once
the next run is reached, those before it are not tried again.
-/

namespace TypedMirror.KeyPattern

/-- An item of a pattern. -/
inductive Item
  | anyRun
  | anyOne
  | exactly (c : Char)
deriving DecidableEq, Repr

/-- The items of a pattern.  A backslash at the very end stands for itself. -/
def items : Text → List Item
  | [] => []
  | '%' :: r => .anyRun :: items r
  | '_' :: r => .anyOne :: items r
  | '\\' :: c :: r => .exactly c :: items r
  | c :: r => .exactly c :: items r

/-- Tries the value and its ends, the longest first, until the answer does not depend on more of the
value being skipped. -/
def seek (answer : Text → Option Bool) : Text → Bool
  | [] => (answer []).getD false
  | c :: r =>
    match answer (c :: r) with
    | some b => b
    | none => seek answer r

/-- Whether the items can be laid over the value; there is no answer if one of them does not fit
before a run is reached, so that the run ahead of the items has to take more. -/
def lay : List Item → Text → Option Bool
  | is, [] => some (is.all (· = .anyRun))
  | [], _ :: _ => none
  | .anyRun :: is, c :: r => some (seek (lay is) (c :: r))
  | .anyOne :: is, _ :: r => lay is r
  | .exactly d :: is, c :: r => if c = d then lay is r else none

/-- Whether the items can be laid over the whole value. -/
def accept (is : List Item) (value : Text) : Bool := (lay is value).getD false

/-- Whether the value matches the pattern, case taken as it is. -/
def matchesExactly (pattern value : Text) : Bool := accept (items pattern) value

/-- Whether the value matches the pattern up to the case of ASCII letters. -/
def matchesIgnoringCase (pattern value : Text) : Bool :=
  matchesExactly (Text.lower pattern) (Text.lower value)

/-- Whether some character of the pattern is not taken for itself. -/
def hasWildcards (pattern : Text) : Bool :=
  (items pattern).any fun i => i = .anyRun || i = .anyOne

end TypedMirror.KeyPattern
