import TypedMirror.Yaml.Scan

/-!
# YAML documents

A document is a tree of scalars, sequences and mappings.  Where a key or value is not written, an
empty plain scalar stands for it.
-/

namespace TypedMirror.Yaml

inductive Node
  | scalar (isPlain : Bool) (text : Text)
  | sequence (items : List Node)
  | mapping (entries : List (Node × Node))

namespace Node

/-- A node that is not written. -/
def absent : Node := .scalar true []

/-- The lexemes left of a list after at least one has been read. -/
abbrev Shorter (ls : List Lexeme) := { rest : List Lexeme // rest.length < ls.length }

/-- The lexemes left of a list after any number has been read. -/
abbrev NotLonger (ls : List Lexeme) := { rest : List Lexeme // rest.length ≤ ls.length }

/-- Whether a block collection has nothing to say on a node before this lexeme. -/
def endsNode : List Lexeme → Bool
  | .key :: _ => true
  | .value :: _ => true
  | .blockEnd :: _ => true
  | _ => false

mutual

/-- A node.  In a mapping a block sequence may stand at the column of its key, where its entries
follow without a mark of their own. -/
def read (isInMapping : Bool) (ls : List Lexeme) : Option (Node × Shorter ls) :=
  match ls with
  | .scalar isPlain text :: r => some (.scalar isPlain text, ⟨r, by simp⟩)
  | .flowSequence :: r => do
    let (items, ⟨rest, h⟩) ← readFlowItems true r
    return (.sequence items, ⟨rest, by simp; omega⟩)
  | .flowMapping :: r => do
    let (entries, ⟨rest, h⟩) ← readFlowEntries true r
    return (.mapping entries, ⟨rest, by simp; omega⟩)
  | .blockSequence :: r => do
    let (items, ⟨rest, h⟩) ← readItems r
    match rest, h with
    | .blockEnd :: rest, h => return (.sequence items, ⟨rest, by simp at h ⊢; omega⟩)
    | _, _ => none
  | .blockMapping :: r => do
    let (entries, ⟨rest, h⟩) ← readEntries r
    return (.mapping entries, ⟨rest, by simp; omega⟩)
  | .entry :: r => do
    if !isInMapping then none
    let (item, ⟨rest, h⟩) ← readItem true r
    let (items, ⟨rest', h'⟩) ← readItemsInMapping rest
    return (.sequence (item :: items), ⟨rest', by simp; omega⟩)
  | _ => none
termination_by (ls.length, 0)

/-- What follows a dash: a node, or nothing. -/
def readItem (isInMapping : Bool) (ls : List Lexeme) : Option (Node × NotLonger ls) :=
  match ls with
  | .entry :: r => some (absent, ⟨.entry :: r, Nat.le_refl _⟩)
  | .blockEnd :: r => some (absent, ⟨.blockEnd :: r, Nat.le_refl _⟩)
  | ls =>
    if isInMapping && endsNode ls then some (absent, ⟨ls, Nat.le_refl _⟩)
    else do
      let (node, ⟨rest, h⟩) ← read false ls
      return (node, ⟨rest, Nat.le_of_lt h⟩)
termination_by (ls.length, 1)

/-- The entries of a block sequence. -/
def readItems (ls : List Lexeme) : Option (List Node × NotLonger ls) :=
  match ls with
  | .entry :: r => do
    let (item, ⟨rest, h⟩) ← readItem false r
    let (items, ⟨rest', h'⟩) ← readItems rest
    return (item :: items, ⟨rest', by simp; omega⟩)
  | ls => some ([], ⟨ls, Nat.le_refl _⟩)
termination_by (ls.length, 2)

/-- The entries of a block sequence at the column of its key. -/
def readItemsInMapping (ls : List Lexeme) : Option (List Node × NotLonger ls) :=
  match ls with
  | .entry :: r => do
    let (item, ⟨rest, h⟩) ← readItem true r
    let (items, ⟨rest', h'⟩) ← readItemsInMapping rest
    return (item :: items, ⟨rest', by simp; omega⟩)
  | ls => some ([], ⟨ls, Nat.le_refl _⟩)
termination_by (ls.length, 2)

/-- The key or value of a block mapping, after its mark. -/
def readPart (ls : List Lexeme) : Option (Node × NotLonger ls) :=
  if endsNode ls then some (absent, ⟨ls, Nat.le_refl _⟩)
  else do
    let (node, ⟨rest, h⟩) ← read true ls
    return (node, ⟨rest, Nat.le_of_lt h⟩)
termination_by (ls.length, 1)

/-- The value of a block mapping, if its mark is there. -/
def readValue (ls : List Lexeme) : Option (Node × NotLonger ls) :=
  match ls with
  | .value :: r => do
    let (node, ⟨rest, h⟩) ← readPart r
    return (node, ⟨rest, by simp; omega⟩)
  | ls => some (absent, ⟨ls, Nat.le_refl _⟩)
termination_by (ls.length, 2)

/-- The entries of a block mapping, and its end. -/
def readEntries (ls : List Lexeme) : Option (List (Node × Node) × NotLonger ls) :=
  match ls with
  | .blockEnd :: r => some ([], ⟨r, by simp⟩)
  | .key :: r => do
    let (key, ⟨rest, h⟩) ← readPart r
    let (value, ⟨rest', h'⟩) ← readValue rest
    let (entries, ⟨rest'', h''⟩) ← readEntries rest'
    return ((key, value) :: entries, ⟨rest'', by simp; omega⟩)
  | _ => none
termination_by (ls.length, 2)

/-- The value in a flow collection, if its mark is there. -/
def readFlowValue (ls : List Lexeme) : Option (Node × NotLonger ls) :=
  match ls with
  | .value :: .comma :: r => some (absent, ⟨.comma :: r, by simp⟩)
  | .value :: .flowSequenceEnd :: r => some (absent, ⟨.flowSequenceEnd :: r, by simp⟩)
  | .value :: .flowMappingEnd :: r => some (absent, ⟨.flowMappingEnd :: r, by simp⟩)
  | .value :: r => do
    let (node, ⟨rest, h⟩) ← read false r
    return (node, ⟨rest, by simp; omega⟩)
  | ls => some (absent, ⟨ls, Nat.le_refl _⟩)
termination_by (ls.length, 2)

/-- A key in a flow collection after its mark, and its value.  In a sequence, a key left out takes
the next mark with it. -/
def readFlowPair (isInSequence : Bool) (ls : List Lexeme) :
    Option ((Node × Node) × NotLonger ls) :=
  match ls with
  | [] => none
  | l :: r =>
    if isInSequence && [.value, .comma, .flowSequenceEnd].contains l then do
      let (value, ⟨rest, h⟩) ← readFlowValue r
      return ((absent, value), ⟨rest, by simp; omega⟩)
    else if [.value, .comma, .flowMappingEnd].contains l then do
      let (value, rest) ← readFlowValue (l :: r)
      return ((absent, value), rest)
    else do
      let (key, ⟨rest, h⟩) ← read false (l :: r)
      let (value, ⟨rest', h'⟩) ← readFlowValue rest
      return ((key, value), ⟨rest', by omega⟩)
termination_by (ls.length, 3)

/-- The items of a flow sequence, and its end.  A pair is a mapping of its own. -/
def readFlowItems (isFirst : Bool) (ls : List Lexeme) : Option (List Node × NotLonger ls) :=
  match ls with
  | .flowSequenceEnd :: r => some ([], ⟨r, by simp⟩)
  | .comma :: r =>
    if isFirst then none
    else do
      let (items, ⟨rest, h⟩) ← readFlowItems true r
      return (items, ⟨rest, by simp; omega⟩)
  | .key :: r =>
    if !isFirst then none
    else do
      let (pair, ⟨rest, h⟩) ← readFlowPair true r
      let (items, ⟨rest', h'⟩) ← readFlowItems false rest
      return (.mapping [pair] :: items, ⟨rest', by simp; omega⟩)
  | ls =>
    if !isFirst then none
    else do
      let (item, ⟨rest, h⟩) ← read false ls
      let (items, ⟨rest', h'⟩) ← readFlowItems false rest
      return (item :: items, ⟨rest', by omega⟩)
termination_by (ls.length, 4)

/-- The entries of a flow mapping, and its end. -/
def readFlowEntries (isFirst : Bool) (ls : List Lexeme) :
    Option (List (Node × Node) × NotLonger ls) :=
  match ls with
  | .flowMappingEnd :: r => some ([], ⟨r, by simp⟩)
  | .comma :: r =>
    if isFirst then none
    else do
      let (entries, ⟨rest, h⟩) ← readFlowEntries true r
      return (entries, ⟨rest, by simp; omega⟩)
  | .key :: r =>
    if !isFirst then none
    else do
      let (pair, ⟨rest, h⟩) ← readFlowPair false r
      let (entries, ⟨rest', h'⟩) ← readFlowEntries false rest
      return (pair :: entries, ⟨rest', by simp; omega⟩)
  | ls =>
    if !isFirst then none
    else do
      let (key, ⟨rest, h⟩) ← read false ls
      let (entries, ⟨rest', h'⟩) ← readFlowEntries false rest
      return ((key, absent) :: entries, ⟨rest', by omega⟩)
termination_by (ls.length, 4)

end

end Node

/-! ## Documents -/

/-- The lexemes without the marks of document ends in front. -/
def dropEnds : List Lexeme → List Lexeme
  | .documentEnd :: r => dropEnds r
  | ls => ls

/-- The node of a document whose start has been read, and the lexemes after it. -/
def readDocument (ls : List Lexeme) : Option (Node × List Lexeme) :=
  match ls with
  | [] => some (.absent, [])
  | .documentStart :: _ => some (.absent, ls)
  | .documentEnd :: r => some (.absent, r)
  | _ => (Node.read false ls).map fun p =>
    (p.1, match p.2.val with
      | .documentEnd :: r => r
      | rest => rest)

/-- The documents that follow, of which at most so many are read. -/
def readDocuments : Nat → List Lexeme → Option (List Node)
  | 0, _ => none
  | fuel + 1, ls =>
    match dropEnds ls with
    | [] => some []
    | .documentStart :: r => do
      let (node, rest) ← readDocument r
      return node :: (← readDocuments fuel rest)
    | _ => none

/-- The documents of a text.  The first needs no mark at its start. -/
def documents (t : Text) : Option (List Node) := do
  let ls ← scan t
  match ls with
  | [] => return []
  | .documentStart :: _ => readDocuments (ls.length + 1) ls
  | _ => do
    let (node, rest) ← if ls.head? = some .documentEnd then none else readDocument ls
    return node :: (← readDocuments (ls.length + 1) rest)

end TypedMirror.Yaml
