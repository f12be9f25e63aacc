import TypedMirror.Query.Grammar

/-!
# The WHERE clause

The clause is cut into spans at every connector.  A span that stands outside all parentheses is a
conjunct of the clause unless a disjunction occurs somewhere, and it is read as a predicate when it
starts with a column and an operator.

* `append_of_span` — cutting a span off loses no token.
-/

namespace TypedMirror.Grammar

/-! ## Spans -/

inductive Connector
  | conjunction
  | disjunction
deriving DecidableEq, Repr

/-- What a token connects spans by, if it does. -/
def connects? (t : Token) : Option Connector :=
  if t.isKeyword "OR" || t.isKeyword "XOR" || t.isOperator "||" then some .disjunction
  else if t.isKeyword "AND" || t.isOperator "&&" then some .conjunction
  else none

/-- Whether a span ends before the token `t`, which `ts` follows. -/
def endsSpan (t : Token) (ts : List Token) : Bool :=
  (connects? t).isSome
    || ["LIMIT", "OFFSET", "HAVING", "FOR", "INTO"].any t.isKeyword
    || ((t.isKeyword "GROUP" || t.isKeyword "ORDER") && (keyword? "BY" ts).isSome)
    || (t.isPunct ';' && ts.isEmpty)

/-- The tokens up to the end of the span, and those from there on. -/
def span : List Token → Except Unsupported (List Token × List Token)
  | [] => .ok ([], [])
  | t :: ts =>
    if t.isKeyword "SELECT" then .error .subquery
    else if endsSpan t ts then .ok ([], t :: ts)
    else (span ts).map fun p => (t :: p.1, p.2)

theorem append_of_span {ts s rest : List Token} (h : span ts = .ok (s, rest)) : s ++ rest = ts := by
  induction ts generalizing s with
  | nil =>
    cases h
    rfl
  | cons t ts ih =>
    unfold span at h
    split at h
    · simp at h
    · split at h
      · cases h
        rfl
      · cases hs : span ts with
        | error e => simp [hs, Except.map] at h
        | ok p =>
          simp only [hs, Except.map, Except.ok.injEq, Prod.mk.injEq] at h
          obtain ⟨rfl, rfl⟩ := h
          simp [ih hs]

theorem length_le_of_span {ts s rest : List Token} (h : span ts = .ok (s, rest)) :
    rest.length ≤ ts.length := by
  have := congrArg List.length (append_of_span h)
  simp at this
  omega

/-- The spans of a clause, whether a disjunction was met, and the tokens after the clause. -/
structure Spans where
  spans : List (List Token)
  usesOr : Bool
  rest : List Token
deriving DecidableEq, Repr

/-- The spans that follow a span, each behind a connector.  A connector with no span after it is
left alone, but a disjunction has been met all the same. -/
def moreSpans (ts : List Token) : Except Unsupported Spans :=
  match ts with
  | [] => .ok ⟨[], false, []⟩
  | t :: us =>
    match connects? t with
    | none => .ok ⟨[], false, t :: us⟩
    | some c =>
      match h : span us with
      | .error e => .error e
      | .ok ([], _) => .ok ⟨[], c = .disjunction, t :: us⟩
      | .ok (u :: s, rest) =>
        have := length_le_of_span h
        (moreSpans rest).map fun more =>
          ⟨(u :: s) :: more.spans, c = .disjunction || more.usesOr, more.rest⟩
termination_by ts.length
decreasing_by
  simp
  omega

/-- `WHERE span (connector span)*`; there may be no clause, or a clause with no span. -/
def whereSpans (ts : List Token) : Except Unsupported Spans :=
  match keyword? "WHERE" ts with
  | none => .ok ⟨[], false, ts⟩
  | some us =>
    match span us with
    | .error e => .error e
    | .ok ([], _) => .ok ⟨[], false, us⟩
    | .ok (u :: s, rest) =>
      (moreSpans rest).map fun more => ⟨(u :: s) :: more.spans, more.usesOr, more.rest⟩

/-! ## Predicates -/

/-- The number of the literal that a token of a deflated query is. -/
def literalId? (t : Token) : Option Nat := do
  if t.kind ≠ .literal then none
  let name ← Text.after? "[[literal:".toList t.text.tail.dropLast
  let (digits, rest) ← Text.cut Marker.closing name
  if rest.isEmpty then Numeral.read digits else none

/-- `literal (, literal)* )`. -/
def literalItems : List Token → Option (List Nat)
  | [l, close] => if close.isPunct ')' then (literalId? l).map ([·]) else none
  | l :: comma :: ts =>
    if comma.isPunct ',' then do
      let id ← literalId? l
      let ids ← literalItems ts
      some (id :: ids)
    else none
  | _ => none

/-- A list of literals in parentheses, and nothing else. -/
def literalList? (ts : List Token) : Option (List Nat) := (punct? '(' ts).bind literalItems

variable (source : Text)

/-- The source of a stretch of tokens, as written. -/
def sourceOf (ts : List Token) : Text :=
  match ts.head?, ts.getLast? with
  | some first, some last => source.slice first.start last.stop
  | _, _ => []

/-- What the tokens after an operator are. -/
def operand (op : Operator) (ts : List Token) : Operand :=
  match ts, ts.head?.bind literalId? with
  | [_], some id => .literal id
  | _, _ =>
    match if op = .isIn ∨ op = .notIn then literalList? ts else none with
    | some ids => .literals ids
    | none => .other (sourceOf source ts)

/-- The predicate a span is, if it starts with a column and an operator. -/
def predicate? (s : List Token) : Option Predicate := do
  let (column, ts) ← columnRef source s
  let (op, ts) ← operator true ts
  some ⟨column, op, operand source op ts⟩

/-- How many more parentheses a span opens than it closes. -/
def balance (s : List Token) : Int := s.countP (·.isPunct '(') - s.countP (·.isPunct ')')

/-- The predicates among the spans that stand outside all parentheses, `depth` being the number
open before the first. -/
def predicatesFrom (depth : Int) : List (List Token) → List Predicate
  | [] => []
  | s :: ss =>
    (if depth = 0 then (predicate? source s).toList else [])
      ++ predicatesFrom (depth + balance s) ss

end TypedMirror.Grammar
