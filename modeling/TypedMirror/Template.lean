import TypedMirror.Text

/-!
# Templates

A template is a text with markers `[[kind:name]]` in it.  Reading a template from left to right cuts
it into segments, each a marker or a single character of plain text; expanding it replaces the
markers for which the resolver has an answer.

* `read?_eq_some` — a marker is read only from its own written form;
* `text_segments` — the segments of a template are the template;
* `expand_declined` — with a resolver that never answers, a template expands to itself.
-/

namespace TypedMirror

/-- What a marker stands for: the contents of a string literal, a table reference, a column of the
WHERE clause, or two opening brackets of the text itself. -/
inductive Marker.Kind
  | literal
  | table
  | column
  | escape
deriving DecidableEq, Repr

/-- A marker of a template. -/
structure Marker where
  kind : Marker.Kind
  name : Text
deriving DecidableEq, Repr

namespace Marker

/-- The word of a kind. -/
def Kind.word : Kind → Text
  | .literal => "literal".toList
  | .table => "table".toList
  | .column => "column".toList
  | .escape => "escape".toList

/-- The kind a word names. -/
def Kind.ofWord? (w : Text) : Option Kind :=
  [Kind.literal, .table, .column, .escape].find? fun k => k.word == w

theorem Kind.ofWord?_eq_some {w : Text} {k : Kind} (h : Kind.ofWord? w = some k) : k.word = w := by
  simpa using List.find?_some h

def opening : Text := "[[".toList
def closing : Text := "]]".toList

/-- The written form of a marker. -/
def write (m : Marker) : Text := opening ++ m.kind.word ++ ':' :: m.name ++ closing

/-- The marker at the head of a text, and the text after it.  The name may hold no opening
brackets. -/
def read? : Text → Option (Marker × Text)
  | '[' :: '[' :: r => do
    let (body, rest) ← Text.cut closing r
    let (word, name) ← Text.cut [':'] body
    let kind ← Kind.ofWord? word
    if Text.has name opening then none else some (⟨kind, name⟩, rest)
  | _ => none

theorem read?_eq_some {t rest : Text} {m : Marker} (h : read? t = some (m, rest)) :
    t = m.write ++ rest := by
  unfold read? at h
  split at h
  · rename_i r
    simp only [Option.bind_eq_bind, Option.bind_eq_some_iff] at h
    obtain ⟨⟨body, after⟩, hbody, ⟨word, name⟩, hname, kind, hkind, h⟩ := h
    split at h
    · simp at h
    · cases h
      have h₁ := Text.cut_eq_some hbody
      have h₂ : body = word ++ [':'] ++ name := Text.cut_eq_some hname
      have h₃ : kind.word = word := Kind.ofWord?_eq_some hkind
      simp [write, opening, h₁, h₂, h₃]
  · simp at h

theorem length_lt_of_read? {t rest : Text} {m : Marker} (h : read? t = some (m, rest)) :
    rest.length < t.length := by
  rw [read?_eq_some h]
  simp [write]
  omega

end Marker

/-- A part of a template. -/
inductive Segment
  | char (c : Char)
  | marker (m : Marker)
deriving DecidableEq, Repr

/-- The segment as it stands in the template. -/
def Segment.text : Segment → Text
  | .char c => [c]
  | .marker m => m.write

/-- The segment with the resolver's answer in place of the marker. -/
def Segment.expand (resolve : Marker → Option Text) : Segment → Text
  | .char c => [c]
  | .marker m => (resolve m).getD m.write

namespace Template

/-- The segments of a template, from left to right. -/
def segments (t : Text) : List Segment :=
  match h : Marker.read? t with
  | some (m, rest) =>
    have := Marker.length_lt_of_read? h
    .marker m :: segments rest
  | none =>
    match t with
    | [] => []
    | c :: r => .char c :: segments r
termination_by t.length

/-- The markers of a template, in order. -/
def markers (t : Text) : List Marker :=
  (segments t).filterMap fun
    | .marker m => some m
    | .char _ => none

/-- The template with its markers replaced, a marker without an answer kept as it is written.  No
replacement is read again. -/
def expand (resolve : Marker → Option Text) (t : Text) : Text :=
  (segments t).flatMap (Segment.expand resolve)

/-- A marker for each two opening brackets, so that the text holds no other marker. -/
def escape : Text → Text
  | '[' :: '[' :: r => (Marker.mk .escape []).write ++ escape r
  | c :: r => c :: escape r
  | [] => []

theorem text_segments (t : Text) : (segments t).flatMap Segment.text = t := by
  fun_induction segments t with
  | case1 t m rest h _ ih => simp [Segment.text, ih, Marker.read?_eq_some h]
  | case2 => rfl
  | case3 _ c r ih => simp [Segment.text, ih]

theorem expand_declined (t : Text) : expand (fun _ => none) t = t := by
  have h : Segment.expand (fun _ => none) = Segment.text := by
    funext s
    cases s <;> rfl
  rw [expand, h, text_segments]

end Template

end TypedMirror
