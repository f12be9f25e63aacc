import TypedMirror.Text.Numeral

/-!
# JSON

JSON values whose objects keep the order of their fields, and their indented written form.
-/

namespace TypedMirror

inductive Json
  | null
  | bool (b : Bool)
  | number (n : Int)
  | text (t : Text)
  | array (items : List Json)
  | object (fields : List (Text × Json))

namespace Json

/-- A text, or nothing. -/
def ofOption : Option Text → Json
  | none => .null
  | some t => .text t

def ofTexts (ts : List Text) : Json := .array (ts.map .text)

/-- An object with these fields. -/
def fields (fs : List (String × Json)) : Json := .object (fs.map fun f => (f.1.toList, f.2))

/-- The digit of a number below sixteen. -/
def hexDigit (n : Nat) : Char := Nat.digitChar n

/-- A character inside a quoted text.  All but quotes, backslashes and control characters stand for
themselves. -/
def escapeChar (c : Char) : Text :=
  if c = '"' then "\\\"".toList
  else if c = '\\' then "\\\\".toList
  else if c = '\n' then "\\n".toList
  else if c = '\r' then "\\r".toList
  else if c = '\t' then "\\t".toList
  else if c = '\x08' then "\\b".toList
  else if c = '\x0c' then "\\f".toList
  else if c.toNat < 0x20 then
    "\\u00".toList ++ [hexDigit (c.toNat / 16), hexDigit (c.toNat % 16)]
  else [c]

def quote (t : Text) : Text := '"' :: t.flatMap escapeChar ++ ['"']

def openBrace : Text := "\x7b".toList
def closeBrace : Text := "\x7d".toList

/-- The white space in front of a line. -/
def indent (depth : Nat) : Text := List.replicate (2 * depth) ' '

mutual

/-- The value on lines indented by two spaces for each level; an empty array or object takes no
line of its own. -/
def pretty (depth : Nat) : Json → Text
  | .null => "null".toList
  | .bool true => "true".toList
  | .bool false => "false".toList
  | .number n => Numeral.writeInt n
  | .text t => quote t
  | .array [] => "[]".toList
  | .array (j :: js) =>
    "[\n".toList ++ prettyItems (depth + 1) (j :: js) ++ '\n' :: indent depth ++ [']']
  | .object [] => openBrace ++ closeBrace
  | .object (f :: fs) =>
    openBrace ++ '\n' :: prettyFields (depth + 1) (f :: fs) ++ '\n' :: indent depth ++ closeBrace

def prettyItems (depth : Nat) : List Json → Text
  | [] => []
  | [j] => indent depth ++ pretty depth j
  | j :: js => indent depth ++ pretty depth j ++ ",\n".toList ++ prettyItems depth js

def prettyFields (depth : Nat) : List (Text × Json) → Text
  | [] => []
  | [(k, j)] => indent depth ++ quote k ++ ": ".toList ++ pretty depth j
  | (k, j) :: fs =>
    indent depth ++ quote k ++ ": ".toList ++ pretty depth j ++ ",\n".toList
      ++ prettyFields depth fs

end

end Json

end TypedMirror
