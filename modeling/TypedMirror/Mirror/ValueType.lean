import TypedMirror.Mirror.Error
import TypedMirror.Text.Numeral

/-!
# Value types

The column types that a mirror can give to the values of its source.
-/

namespace TypedMirror

inductive ValueType
  | integer
  | varchar
  | float
  | decimal
  | longtext
  | bit
deriving DecidableEq, Repr

namespace ValueType

def all : List ValueType := [.integer, .varchar, .float, .decimal, .longtext, .bit]

/-- The SQL keyword of the type. -/
def keyword : ValueType → Text
  | .integer => "INTEGER".toList
  | .varchar => "VARCHAR".toList
  | .float => "FLOAT".toList
  | .decimal => "DECIMAL".toList
  | .longtext => "LONGTEXT".toList
  | .bit => "BIT".toList

/-- The type a text names, without regard to case and to blanks around it. -/
def read (written : Text) : Except MirrorError ValueType :=
  match all.find? fun t => t.keyword == Text.upper (Text.trim written) with
  | some t => .ok t
  | none => .error (.unsupportedType written)

/-- The numerals of type arguments, with `sep` between them. -/
def joinArgs (sep : Text) (args : List Nat) : Text := Text.joinWith sep (args.map Numeral.write)

/-- The type of a column with these arguments.  A `VARCHAR` needs a length, and a `LONGTEXT` has
none. -/
def columnType (t : ValueType) (args : List Nat) : Text :=
  if t = .longtext then t.keyword
  else if args.isEmpty then
    if t = .varchar then "VARCHAR(255)".toList else t.keyword
  else t.keyword ++ '(' :: joinArgs [','] args ++ [')']

/-- The largest type argument. -/
def maxArg : Nat := 4294967295

/-- The arguments that are numbers; any others are dropped. -/
def readArgs (written : List Text) : List Nat :=
  written.filterMap fun a => Numeral.readUpTo maxArg (Text.trim a)

end ValueType

end TypedMirror
