import TypedMirror.Query.Token.Lexer
import TypedMirror.Text.Bytes

/-!
# Reading tokens byte by byte

The rules of `extent` look at ASCII characters only, so they serve for bytes too, an escape in a
literal covering one byte.  Where none applies, a token is one character, whose bytes its first byte
tells the number of.
-/

namespace TypedMirror.Token

/-- The kind of the token that starts with the byte `c`, and how many of the bytes after `c` it
takes. -/
def byteExtent (c : Char) (r : Text) : Kind × Nat :=
  match extent c r with
  | (.other, 0) => (.other, Text.width c - 1)
  | e => e

/-- The tokens of bytes that start at position `start`. -/
def readBytesFrom (start : Nat) : Text → List Token
  | [] => []
  | c :: r =>
    if Text.isAsciiBlank c then readBytesFrom (start + 1) r
    else
      let e := byteExtent c r
      let text := c :: r.take e.2
      ⟨e.1, text, start⟩ :: readBytesFrom (start + text.length) (r.drop e.2)
termination_by t => t.length
decreasing_by all_goals simp only [List.length_cons, List.length_drop]; omega

/-- The tokens of bytes, in order, with their positions in bytes. -/
def readBytes (t : Text) : List Token := readBytesFrom 0 t

/-- A token of `text`, in bytes. -/
def inBytes (text : Text) (t : Token) : Token :=
  ⟨t.kind, t.text.bytes, Text.utf8Size (text.take t.start)⟩

end TypedMirror.Token
