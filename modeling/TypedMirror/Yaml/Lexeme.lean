import TypedMirror.Text

/-!
# Lexemes of a YAML document

The subset that settings are written in: block and flow collections, plain and quoted scalars,
comments, and the marks that start and end a document.  Anchors, tags and block scalars are not in
it.
-/

namespace TypedMirror.Yaml

inductive Lexeme
  | scalar (isPlain : Bool) (text : Text)
  | documentStart
  | documentEnd
  | blockSequence
  | blockMapping
  | blockEnd
  | flowSequence
  | flowSequenceEnd
  | flowMapping
  | flowMappingEnd
  /-- The dash of a block sequence. -/
  | entry
  | comma
  | key
  | value
deriving DecidableEq, Repr

/-- A place in the document. -/
structure Place where
  line : Nat
  column : Nat
  offset : Nat
deriving DecidableEq, Repr

def isBreak (c : Char) : Bool := c == '\n' || c == '\u2028' || c == '\u2029'

def isSpace (c : Char) : Bool := c == ' ' || c == '\t'

/-- Nothing, or a character between words. -/
def isGap (c : Option Char) : Bool := c.all fun c => isSpace c || isBreak c

/-- The place after a character. -/
def Place.after (p : Place) (c : Char) : Place :=
  if isBreak c then ⟨p.line + 1, 0, p.offset + 1⟩ else ⟨p.line, p.column + 1, p.offset + 1⟩

/-- The place after some characters of the same line. -/
def Place.right (p : Place) (n : Nat) : Place := ⟨p.line, p.column + n, p.offset + n⟩

/-- A place and the text from there on. -/
structure Cursor where
  place : Place
  rest : Text
deriving DecidableEq, Repr

/-- What can stand in a document. -/
def isAllowed (c : Char) : Bool :=
  let n := c.toNat
  n == 0x09 || n == 0x0a || n == 0x0d || (0x20 ≤ n && n ≤ 0x7e) || n == 0x85
    || (0xa0 ≤ n && n ≤ 0xfffd) || 0x10000 ≤ n

/-- The text with every line break of one or two control characters as a line feed. -/
def unifyBreaks : Text → Text
  | [] => []
  | '\r' :: '\n' :: r => '\n' :: unifyBreaks r
  | '\r' :: r => '\n' :: unifyBreaks r
  | c :: r => (if c = '\u0085' then '\n' else c) :: unifyBreaks r

/-- Whether a line starts with three marks of a document's start or end. -/
def isDocumentMark (p : Place) (t : Text) : Bool :=
  p.column == 0 &&
    match t with
    | '-' :: '-' :: '-' :: r => isGap r.head?
    | '.' :: '.' :: '.' :: r => isGap r.head?
    | _ => false

/-! ## White space inside a scalar -/

/-- White space between two words of a scalar: on one line, or over line breaks, the first of which
may have been escaped. -/
inductive Gap
  | blanks (t : Text)
  | lines (first : Option Char) (more : Text)
deriving DecidableEq, Repr

namespace Gap

def none : Gap := .blanks []

def isLines : Gap → Bool
  | .blanks _ => false
  | .lines _ _ => true

/-- Blanks at the ends of lines do not count. -/
def blank (c : Char) : Gap → Gap
  | .blanks t => .blanks (t ++ [c])
  | g => g

def lineBreak (c : Char) : Gap → Gap
  | .blanks _ => .lines (some c) []
  | .lines first more => .lines first (more ++ [c])

/-- What stands for the gap: a single line feed is a space, and of more the first is dropped. -/
def text : Gap → Text
  | .blanks t => t
  | .lines (some '\n') [] => [' ']
  | .lines (some '\n') more => more
  | .lines first more => first.toList ++ more

end Gap

/-! ## Scalars -/

/-- Whether a plain scalar ends before `c`. -/
def endsPlain (inFlow : Bool) (c : Char) (r : Text) : Bool :=
  (c == ':' && isGap r.head?) || (inFlow && [',', '[', ']', '\x7b', '\x7d'].contains c)

/-- Whether a colon stands in a flow collection where neither a value nor a word can follow. -/
def isStrayColon (inFlow : Bool) (c : Char) (r : Text) : Bool :=
  inFlow && c == ':' && r.head?.any [',', '?', '[', ']', '\x7b', '\x7d'].contains

/-- A plain scalar from here on, after the reversed text `acc` and a gap.  `least` is the least
column of its further lines.  The answer tells whether line breaks follow the scalar. -/
def plainFrom (inFlow : Bool) (least : Int) (acc : Text) (gap : Gap) (p : Place) :
    Text → Option (Text × Bool × Cursor)
  | [] => some (acc.reverse, gap.isLines, ⟨p, []⟩)
  | c :: r =>
    if isSpace c then
      if gap.isLines && c == '\t' && (p.column : Int) < least then none
      else plainFrom inFlow least acc (gap.blank c) (p.after c) r
    else if isBreak c then plainFrom inFlow least acc (gap.lineBreak c) (p.after c) r
    else if gap ≠ .none
        ∧ ((!inFlow && (p.column : Int) < least) || isDocumentMark p (c :: r) || c == '#') then
      some (acc.reverse, gap.isLines, ⟨p, c :: r⟩)
    else if isStrayColon inFlow c r then none
    else if endsPlain inFlow c r then some (acc.reverse, gap.isLines, ⟨p, c :: r⟩)
    else plainFrom inFlow least (c :: (gap.text.reverse ++ acc)) .none (p.after c) r

/-- A single-quoted scalar after its opening quote; two quotes stand for one. -/
def singleQuotedFrom (acc : Text) (gap : Gap) (p : Place) : Text → Option (Text × Cursor)
  | [] => none
  | c :: r =>
    if isSpace c then singleQuotedFrom acc (gap.blank c) (p.after c) r
    else if isBreak c then singleQuotedFrom acc (gap.lineBreak c) (p.after c) r
    else if isDocumentMark p (c :: r) then none
    else
      let acc := gap.text.reverse ++ acc
      if c = '\'' then
        match r with
        | '\'' :: r' => singleQuotedFrom ('\'' :: acc) .none (p.right 2) r'
        | _ => some (acc.reverse, ⟨p.right 1, r⟩)
      else singleQuotedFrom (c :: acc) .none (p.after c) r

/-- The value of a hexadecimal digit. -/
def hexValue? (c : Char) : Option Nat :=
  if c.isDigit then some (c.toNat - '0'.toNat)
  else if 'a' ≤ c ∧ c ≤ 'f' then some (c.toNat - 'a'.toNat + 10)
  else if 'A' ≤ c ∧ c ≤ 'F' then some (c.toNat - 'A'.toNat + 10)
  else none

/-- The character whose code is written in so many hexadecimal digits. -/
def hexChar? (digits : Nat) (t : Text) : Option Char := do
  if t.length < digits then none
  let n ← (t.take digits).foldlM (fun n c => (hexValue? c).map (16 * n + ·)) 0
  if n.isValidChar then some (Char.ofNat n) else none

/-- The character that an escape stands for, and the length of the escape. -/
def escape? : Text → Option (Char × Nat)
  | 'x' :: r => (hexChar? 2 r).map (·, 3)
  | 'u' :: r => (hexChar? 4 r).map (·, 5)
  | 'U' :: r => (hexChar? 8 r).map (·, 9)
  | c :: _ =>
    ([('0', '\x00'), ('a', '\x07'), ('b', '\x08'), ('t', '\t'), ('\t', '\t'), ('n', '\n'),
      ('v', '\x0b'), ('f', '\x0c'), ('r', '\r'), ('e', '\x1b'), (' ', ' '), ('"', '"'), ('/', '/'),
      ('\\', '\\'), ('N', '\u0085'), ('_', '\u00a0'), ('L', '\u2028'), ('P', '\u2029')].lookup c).map
      (·, 1)
  | [] => none

/-- A double-quoted scalar after its opening quote. -/
def doubleQuotedFrom (acc : Text) (gap : Gap) (p : Place) (t : Text) : Option (Text × Cursor) :=
  match t with
  | [] => none
  | c :: r =>
    if isSpace c then doubleQuotedFrom acc (gap.blank c) (p.after c) r
    else if isBreak c then doubleQuotedFrom acc (gap.lineBreak c) (p.after c) r
    else if isDocumentMark p (c :: r) then none
    else
      let acc := gap.text.reverse ++ acc
      if c = '"' then some (acc.reverse, ⟨p.right 1, r⟩)
      else if c = '\\' then
        match r with
        | [] => none
        | d :: r' =>
          if isBreak d then doubleQuotedFrom acc (.lines none []) ((p.after c).after d) r'
          else
            match escape? (d :: r') with
            | none => none
            | some (e, n) =>
              doubleQuotedFrom (e :: acc) .none (p.right (n + 1)) (r'.drop (n - 1))
      else doubleQuotedFrom (c :: acc) .none (p.after c) r
termination_by t.length

end TypedMirror.Yaml
