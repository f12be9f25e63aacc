import TypedMirror.Text

/-!
# Decimal numerals

Numbers are written without sign or leading zeros.  Reading also allows a single `+` in front and
leading zeros, and nothing else: `read_write` says that what is written reads back.
-/

namespace TypedMirror.Numeral

/-- The decimal numeral of a number. -/
def write (n : Nat) : Text := Nat.toDigits 10 n

/-- The decimal numeral of an integer. -/
def writeInt (n : Int) : Text := if n < 0 then '-' :: write n.natAbs else write n.natAbs

/-- The number of a non-empty run of digits. -/
def readDigits (ds : Text) : Option Nat :=
  if !ds.isEmpty && ds.all Char.isDigit then some (Nat.ofDigitChars 10 ds 0) else none

/-- The number of a run of digits, behind at most one `+`. -/
def read : Text → Option Nat
  | '+' :: ds => readDigits ds
  | ds => readDigits ds

/-- The number read, if it is no larger than `bound`. -/
def readUpTo (bound : Nat) (t : Text) : Option Nat := (read t).filter (· ≤ bound)

theorem write_ne_nil (n : Nat) : write n ≠ [] := Nat.toDigits_ne_nil

theorem isDigit_of_mem_write {n : Nat} {c : Char} (h : c ∈ write n) : c.isDigit :=
  Nat.isDigit_of_mem_toDigits (by decide) (by decide) h

theorem readDigits_write (n : Nat) : readDigits (write n) = some n := by
  have h : (write n).all Char.isDigit := List.all_eq_true.2 fun _ hc => isDigit_of_mem_write hc
  simp [readDigits, h, write_ne_nil]
  exact Nat.ofDigitChars_toDigits (by decide) (by decide)

theorem read_write (n : Nat) : read (write n) = some n := by
  unfold read
  split
  · rename_i h
    have : ('+' : Char).isDigit := isDigit_of_mem_write (n := n) (by rw [h]; simp)
    exact absurd this (by decide)
  · exact readDigits_write n

end TypedMirror.Numeral
