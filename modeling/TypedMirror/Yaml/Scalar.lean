import TypedMirror.Text.Numeral
import TypedMirror.Yaml.Lexeme

/-!
# Plain scalars

What a plain scalar stands for: nothing, a truth value, an integer, a number with a fraction or
exponent, or text.  A scalar that only looks like a number, because of a leading zero or because it
is too large, is text.
-/

namespace TypedMirror.Yaml.Scalar

/-! ## Integers -/

/-- The number that a non-empty run of digits of a base writes. -/
def digits? (base : Nat) (t : Text) : Option Nat :=
  if t.isEmpty then none
  else t.foldlM (fun n c => (hexValue? c).bind fun d => if d < base then some (base * n + d) else none) 0

/-- The text without one plus sign in front. -/
def unsigned (t : Text) : Text := (Text.after? ['+'] t).getD t

/-- Whether a run of digits starts with a zero that is not its only digit. -/
def hasLeadingZero (t : Text) : Bool :=
  let digits :=
    match t with
    | '-' :: r => r
    | '+' :: r => r
    | r => r
  digits.head? == some '0' && digits.length > 1 && digits.all Char.isDigit

/-- The number written in a base that a mark in front names, or in decimal digits. -/
def based? (t : Text) : Option Nat :=
  match t with
  | '0' :: 'x' :: r => digits? 16 r
  | '0' :: 'o' :: r => digits? 8 r
  | '0' :: 'b' :: r => digits? 2 r
  | r => digits? 10 r

/-- A number without sign, or behind a plus sign, up to a bound. -/
def natural? (bound : Nat) (t : Text) : Option Nat :=
  if hasLeadingZero t then none else (based? (unsigned t)).filter (· ≤ bound)

/-- A number behind a minus sign, its distance from zero up to a bound. -/
def negative? (bound : Nat) (t : Text) : Option Nat :=
  if hasLeadingZero t then none
  else ((Text.after? ['-'] t).bind based?).filter (· ≤ bound)

/-! ## Other numbers -/

/-- From here on a number is too large for a double: half a unit above the largest one. -/
def overflow : Nat := Nat.pow 2 1024 - Nat.pow 2 970

/-- Whether the decimal digits, times a power of ten, stay below the overflow. -/
def isFinite (digits : Text) (exponent : Int) : Bool :=
  let n := Nat.ofDigitChars 10 digits 0
  if n = 0 then true
  else if 0 ≤ exponent then exponent ≤ 400 && n * Nat.pow 10 exponent.toNat < overflow
  else
    let shift := exponent.natAbs
    digits.length ≤ shift || n < overflow * Nat.pow 10 shift

/-- The exponent in front of the end of a number. -/
def exponent? : Text → Option Int
  | [] => some 0
  | c :: r =>
    if c = 'e' ∨ c = 'E' then
      match r with
      | '-' :: ds => (digits? 10 ds).map fun n => -(n : Int)
      | '+' :: ds => (digits? 10 ds).map Int.ofNat
      | ds => (digits? 10 ds).map Int.ofNat
    else none

/-- Whether the text is a decimal number, with or without fraction and exponent, that a double can
hold. -/
def isDecimal (t : Text) : Bool :=
  let whole := t.takeWhile Char.isDigit
  let rest := t.drop whole.length
  let fraction :=
    match rest with
    | '.' :: r => r.takeWhile Char.isDigit
    | _ => []
  let rest :=
    match rest with
    | '.' :: r => r.drop fraction.length
    | r => r
  !(whole ++ fraction).isEmpty &&
    (exponent? rest).any fun e => isFinite (whole ++ fraction) (e - fraction.length)

def isInfinity (t : Text) : Bool := [".inf", ".Inf", ".INF"].any (t == ·.toList)

/-- Whether the text is a number with a fraction or exponent, infinite, or no number at all. -/
def isFloat (t : Text) : Bool :=
  !hasLeadingZero t &&
    ([".nan", ".NaN", ".NAN"].any (t == ·.toList) ||
      match t with
      | '-' :: r => isInfinity r || isDecimal r
      | '+' :: r => isInfinity r || isDecimal r
      | r => isInfinity r || isDecimal r)

/-! ## Meaning -/

/-- What a plain scalar stands for. -/
inductive Meaning
  | null
  | bool
  | int (n : Int)
  /-- A number that is no 64-bit integer. -/
  | float
  | text
deriving DecidableEq, Repr

/-- Whether the text is a word for nothing. -/
def isNull (t : Text) : Bool := ["", "null", "Null", "NULL", "~"].any (t == ·.toList)

def isBool (t : Text) : Bool :=
  ["true", "True", "TRUE", "false", "False", "FALSE"].any (t == ·.toList)

def meaning (t : Text) : Meaning :=
  if isNull t then .null
  else if isBool t then .bool
  else
    match natural? (Nat.pow 2 64 - 1) t, negative? (Nat.pow 2 63) t with
    | some n, _ => .int n
    | none, some n => .int (-n)
    | none, none =>
      if (natural? (Nat.pow 2 128 - 1) t).isSome || (negative? (Nat.pow 2 127) t).isSome || isFloat t then
        .float
      else .text

end TypedMirror.Yaml.Scalar
