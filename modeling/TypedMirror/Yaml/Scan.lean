import TypedMirror.Yaml.Lexeme

/-!
# Scanning a YAML document

Indentation opens and closes block collections, so the scan keeps the columns of those that are
open.  A scalar or flow collection may turn out to be the key of a mapping, once a colon follows it
on the same line: the place of such a pending key is kept, one for each level of flow collections,
and the mark of the key is put in front of it afterwards.
-/

namespace TypedMirror.Yaml

/-- A place where a key may have begun, with the number of lexemes before it.  One that stands at
the column of an open block mapping has to turn out a key. -/
structure PendingKey where
  index : Nat
  place : Place
  isRequired : Bool
deriving DecidableEq, Repr

structure Scan where
  lexemes : List Lexeme
  cursor : Cursor
  /-- The column of the innermost block collection, below zero outside all. -/
  indent : Int
  /-- The columns of the block collections around it. -/
  outer : List Int
  /-- The pending key outside flow collections or in the innermost of them. -/
  pending : Option PendingKey
  /-- The pending keys around the innermost flow collection. -/
  around : List (Option PendingKey)
  /-- Whether a key may begin here. -/
  keyAllowed : Bool
deriving DecidableEq, Repr

namespace Scan

def start (t : Text) : Scan := ⟨[], ⟨⟨0, 0, 0⟩, t⟩, -1, [], none, [], true⟩

def inFlow (s : Scan) : Bool := !s.around.isEmpty

def emit (s : Scan) (l : Lexeme) : Scan := { s with lexemes := s.lexemes ++ [l] }

/-- The scan further on, by characters of the same line. -/
def skip (s : Scan) (n : Nat) : Scan :=
  { s with cursor := ⟨s.cursor.place.right n, s.cursor.rest.drop n⟩ }

/-! ## White space and comments -/

/-- Whether a character in front of a lexeme says nothing.  A tab is white space only where no key
may begin, or in a flow collection; a line may start with a byte order mark. -/
def isFiller (inFlow keyAllowed : Bool) (p : Place) (c : Char) : Bool :=
  c == ' ' || (c == '\t' && (inFlow || !keyAllowed)) || (c == '\ufeff' && p.column == 0)

/-- The cursor at the next lexeme, and whether a key may begin there. -/
def gapFrom (inFlow keyAllowed inComment : Bool) (p : Place) : Text → Cursor × Bool
  | [] => (⟨p, []⟩, keyAllowed)
  | c :: r =>
    if isBreak c then gapFrom inFlow (keyAllowed || !inFlow) false (p.after c) r
    else if inComment then gapFrom inFlow keyAllowed true (p.after c) r
    else if isFiller inFlow keyAllowed p c then gapFrom inFlow keyAllowed false (p.after c) r
    else if c == '#' then gapFrom inFlow keyAllowed true (p.after c) r
    else (⟨p, c :: r⟩, keyAllowed)

def skipGap (s : Scan) : Scan :=
  let g := gapFrom s.inFlow s.keyAllowed false s.cursor.place s.cursor.rest
  { s with cursor := g.1, keyAllowed := g.2 }

/-! ## Pending keys -/

/-- No key is pending here any more; that fails if it had to turn out one. -/
def dropKey (s : Scan) : Option Scan :=
  if s.pending.any (·.isRequired) then none else some { s with pending := none }

/-- What is left of a pending key at a place: a key stands on one line of limited length. -/
def keepAt (p : Place) : Option PendingKey → Option (Option PendingKey)
  | none => some none
  | some k =>
    if k.place.line < p.line || k.place.offset + 1024 < p.offset then
      if k.isRequired then none else some none
    else some (some k)

def dropStaleKeys (s : Scan) : Option Scan := do
  let p := s.cursor.place
  return { s with pending := ← keepAt p s.pending, around := ← s.around.mapM (keepAt p) }

/-- A key may begin here. -/
def saveKey (s : Scan) : Option Scan := do
  if !s.keyAllowed then return s
  let p := s.cursor.place
  let s ← s.dropKey
  return { s with
    pending := some ⟨s.lexemes.length, p, !s.inFlow && s.indent == (p.column : Int)⟩ }

/-! ## Block collections -/

/-- The open columns and the ends of the collections that lie to the right of a column. -/
def closeRightOf (column : Int) (indent : Int) : List Int → Int × List Int × List Lexeme
  | [] => (indent, [], [])
  | o :: os =>
    if column < indent then
      let c := closeRightOf column o os
      (c.1, c.2.1, .blockEnd :: c.2.2)
    else (indent, o :: os, [])

/-- Closes the block collections to the right of a column. -/
def unroll (column : Int) (s : Scan) : Scan :=
  if s.inFlow then s
  else
    let c := closeRightOf column s.indent s.outer
    { s with indent := c.1, outer := c.2.1, lexemes := s.lexemes ++ c.2.2 }

/-- Puts lexemes in front of the one with an index. -/
def insertAt (index : Nat) (ls : List Lexeme) (s : Scan) : Scan :=
  { s with lexemes := s.lexemes.take index ++ ls ++ s.lexemes.drop index }

/-- Opens a block collection at a column, unless one is open there already. -/
def roll (column : Int) (opening : Lexeme) (index : Nat) (s : Scan) : Scan :=
  if s.inFlow || column ≤ s.indent then s
  else insertAt index [opening] { s with indent := column, outer := s.indent :: s.outer }

/-! ## Lexemes -/

def documentMark (l : Lexeme) (s : Scan) : Option Scan := do
  let s ← (s.unroll (-1)).dropKey
  return ({ s with keyAllowed := false }.emit l).skip 3

def openFlow (l : Lexeme) (s : Scan) : Option Scan := do
  let s ← s.saveKey
  return ({ s with pending := none, around := s.pending :: s.around, keyAllowed := true }.emit l).skip 1

def closeFlow (l : Lexeme) (s : Scan) : Option Scan := do
  let s ← s.dropKey
  let s :=
    match s.around with
    | [] => s
    | k :: ks => { s with pending := k, around := ks }
  return ({ s with keyAllowed := false }.emit l).skip 1

def comma (s : Scan) : Option Scan := do
  let s ← s.dropKey
  return ({ s with keyAllowed := true }.emit .comma).skip 1

/-- The scan in which a block collection is open at the cursor. -/
def rollHere (opening : Lexeme) (s : Scan) : Option Scan :=
  if s.inFlow then some s
  else if s.keyAllowed then some (s.roll s.cursor.place.column opening s.lexemes.length)
  else none

def entry (s : Scan) : Option Scan := do
  let s ← s.rollHere .blockSequence
  let s ← s.dropKey
  return ({ s with keyAllowed := true }.emit .entry).skip 1

def explicitKey (s : Scan) : Option Scan := do
  let s ← s.rollHere .blockMapping
  let s ← s.dropKey
  return ({ s with keyAllowed := !s.inFlow }.emit .key).skip 1

/-- A colon: what was pending is a key, or a mapping has a value without one. -/
def value (s : Scan) : Option Scan :=
  match s.pending with
  | some k =>
    let s := (s.insertAt k.index [.key]).roll k.place.column .blockMapping k.index
    some (({ s with pending := none, keyAllowed := false }.emit .value).skip 1)
  | none => do
    let s ← s.rollHere .blockMapping
    return ({ s with keyAllowed := !s.inFlow }.emit .value).skip 1

def quoted (read : Text → Option (Text × Cursor)) (s : Scan) : Option Scan := do
  let s ← s.saveKey
  let (text, cursor) ← read (s.cursor.rest.drop 1)
  return { s with keyAllowed := false, cursor := cursor }.emit (.scalar false text)

def plain (s : Scan) : Option Scan := do
  let s ← s.saveKey
  let (text, breaks, cursor) ←
    plainFrom s.inFlow (s.indent + 1) [] .none s.cursor.place s.cursor.rest
  return { s with keyAllowed := breaks, cursor := cursor }.emit (.scalar true text)

/-- The characters that start no plain scalar, unless the next character makes them one. -/
def indicators : List Char :=
  ['-', '?', ':', ',', '[', ']', '\x7b', '\x7d', '#', '&', '*', '!', '|', '>', '\'', '"', '%', '@',
    '\x60']

def startsPlain (inFlow : Bool) (c : Char) (next : Option Char) : Bool :=
  !(isGap (some c) || indicators.contains c)
    || (c == '-' && !next.any isSpace)
    || (!inFlow && (c == '?' || c == ':') && !isGap next)

/-- The next lexeme, its first character being given. -/
def lexeme (c : Char) (r : Text) (s : Scan) : Option Scan :=
  let p := s.cursor.place
  let next := r.head?
  if isDocumentMark p (c :: r) then
    s.documentMark (if c = '-' then .documentStart else .documentEnd)
  else if c = '[' then s.openFlow .flowSequence
  else if c = '\x7b' then s.openFlow .flowMapping
  else if c = ']' then s.closeFlow .flowSequenceEnd
  else if c = '\x7d' then s.closeFlow .flowMappingEnd
  else if c = ',' then s.comma
  else if c = '-' ∧ isGap next then s.entry
  else if c = '?' ∧ (s.inFlow || isGap next) then s.explicitKey
  else if c = ':' ∧ (s.inFlow || isGap next) then s.value
  else if c = '\'' then s.quoted (singleQuotedFrom [] .none (p.right 1))
  else if c = '"' then s.quoted (doubleQuotedFrom [] .none (p.right 1))
  else if p.column = 0 ∧ c = '%' then none
  else if startsPlain s.inFlow c next then s.plain
  else none

/-- The rest of the scan, which reads at most so many lexemes. -/
def finish : Nat → Scan → Option (List Lexeme)
  | 0, _ => none
  | fuel + 1, s => do
    let s ← s.skipGap.dropStaleKeys
    let s := s.unroll s.cursor.place.column
    match s.cursor.rest with
    | [] => return (← (s.unroll (-1)).dropKey).lexemes
    | c :: r => finish fuel (← s.lexeme c r)

end Scan

/-- The lexemes of a document.  Each takes at least one character. -/
def scan (t : Text) : Option (List Lexeme) :=
  let t := if t.head? = some '\ufeff' then t.tail else t
  if t.all isAllowed then (Scan.start (unifyBreaks t)).finish (t.length + 1) else none

end TypedMirror.Yaml
