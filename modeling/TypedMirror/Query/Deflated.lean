import TypedMirror.Template
import TypedMirror.Text.Numeral
import TypedMirror.Text.Quoted

/-!
# Deflated queries

A query is deflated by putting a numbered marker in place of the contents of each quoted literal, so
that no later reading of it depends on what a literal says; two opening brackets outside the
literals become a marker of their own.  Inflating puts the contents and the brackets back.
-/

namespace TypedMirror

/-- A stretch of a query and the quoted literal that ends it. -/
structure Passage where
  before : Text
  quote : Char
  contents : Text
deriving DecidableEq, Repr

/-- A query whose literals, numbered from one, stand apart from its text. -/
structure Deflated where
  query : Text
  literals : List Text
deriving DecidableEq, Repr

namespace Passage

def isQuote (c : Char) : Bool := c == '\'' || c == '"'

/-- The passage as it stands in the query. -/
def text (p : Passage) : Text := p.before ++ p.quote :: p.contents ++ [p.quote]

theorem length_lt_of_close {t r contents rest : Text} {q : Char}
    (hq : t.dropWhile (!isQuote ·) = q :: r) (hc : Quoted.close q r = some (contents, rest)) :
    rest.length < t.length := by
  have h₁ := congrArg List.length (Quoted.close_append hc)
  have h₂ := (List.dropWhile_suffix (!isQuote ·) (l := t)).length_le
  rw [hq] at h₂
  simp at h₁ h₂
  omega

/-- The passages of a query, and the text after the last of them.  A quote that is never closed
belongs to that text, with all that follows it. -/
def split (t : Text) : List Passage × Text :=
  match hq : t.dropWhile (!isQuote ·) with
  | [] => ([], t)
  | q :: r =>
    match hc : Quoted.close q r with
    | none => ([], t)
    | some (contents, rest) =>
      have := length_lt_of_close hq hc
      let others := split rest
      (⟨t.takeWhile (!isQuote ·), q, contents⟩ :: others.1, others.2)
termination_by t.length

theorem text_split (t : Text) : (split t).1.flatMap text ++ (split t).2 = t := by
  fun_induction split t with
  | case1 => rfl
  | case2 => rfl
  | case3 t q r hq contents rest hc _ others ih =>
    have h := List.takeWhile_append_dropWhile (p := (!isQuote ·)) (l := t)
    rw [hq, Quoted.close_append hc] at h
    simpa [text, others, ih] using h

end Passage

namespace Deflated

/-- The marker of the literal with a number. -/
def marker (id : Nat) : Marker := ⟨.literal, Numeral.write id⟩

/-- The passages with their literals numbered from `id` on, and the text after them. -/
def textFrom (id : Nat) : List Passage → Text → Text
  | [], tail => Template.escape tail
  | p :: ps, tail =>
    Template.escape p.before ++ p.quote :: (marker id).write ++ p.quote :: textFrom (id + 1) ps tail

def ofQuery (query : Text) : Deflated :=
  let parts := Passage.split query
  ⟨textFrom 1 parts.1 parts.2, parts.1.map (·.contents)⟩

/-- The contents of the literal with a number. -/
def literal? (d : Deflated) : Nat → Option Text
  | 0 => none
  | id + 1 => d.literals[id]?

/-- The contents of the literal that a marker's name numbers. -/
def literalNamed (literal : Nat → Option Text) (name : Text) : Option Text :=
  (Numeral.read name).bind literal

/-- What a literal or escape marker stands for. -/
def resolve (literal : Nat → Option Text) (m : Marker) : Option Text :=
  match m.kind with
  | .literal => literalNamed literal m.name
  | .escape => some Marker.opening
  | .table => none
  | .column => none

/-- The text with its literals and brackets back in place.  A marker for which there is no literal
is kept. -/
def inflate (literal : Nat → Option Text) (t : Text) : Text :=
  Template.expand (resolve literal) t

/-- The query that was deflated. -/
def toQuery (d : Deflated) : Text := inflate d.literal? d.query

end Deflated

end TypedMirror
