import TypedMirror.Sql.Statement

/-!
# The truth of a condition

A condition is read on the rows that its columns are taken from.  A comparison or a pattern match on
a cell without a value is neither true nor false, and the connectives follow the three-valued rules.
What `LIKE` matches is left open: `like` is any relation between values and patterns.

* `truth_any_map` — a chain of conditions on one cell holds if one of them does;
* `truth_likes` — the condition that a cell matches one of some patterns.
-/

namespace TypedMirror.Sql

/-- True, false, or, where a value is missing, `none`. -/
abbrev Truth := Option Bool

namespace Truth

def not : Truth → Truth := Option.map (!·)

def and : Truth → Truth → Truth
  | some false, _ => some false
  | _, some false => some false
  | some true, some true => some true
  | _, _ => none

def or : Truth → Truth → Truth
  | some true, _ => some true
  | _, some true => some true
  | some false, some false => some false
  | _, _ => none

@[simp] theorem not_some (a : Bool) : not (some a) = some !a := rfl
@[simp] theorem not_none : not none = none := rfl

@[simp] theorem and_some (a b : Bool) : and (some a) (some b) = some (a && b) := by
  cases a <;> cases b <;> rfl

@[simp] theorem and_none_none : and none none = none := rfl

@[simp] theorem or_some (a b : Bool) : or (some a) (some b) = some (a || b) := by
  cases a <;> cases b <;> rfl

@[simp] theorem or_none_none : or none none = none := rfl

/-- False adds nothing to a disjunction. -/
@[simp] theorem or_false (a : Truth) : or a (some false) = a := by
  rcases a with _ | _ | _ <;> rfl

end Truth

variable {V : Type} [DecidableEq V]

/-- The cells of a row by the names of its columns; `none` is the missing value. -/
abbrev Row (V : Type) := Text → Option V

/-- The rows that the columns of a condition are taken from. -/
structure Scope (V : Type) where
  /-- The row of the table at hand. -/
  row : Row V
  old : Row V
  new : Row V

namespace Scope

def image (s : Scope V) : Option RowImage → Row V
  | none => s.row
  | some .old => s.old
  | some .new => s.new

/-- The cell of a column. -/
def cell (s : Scope V) (c : Column) : Option V := s.image c.row c.name

end Scope

namespace Condition

variable (like : V → Text → Bool) (s : Scope V)

/-- Whether two cells are equal, if both have a value. -/
def sameCell : Option V → Option V → Truth
  | some a, some b => some (a = b)
  | _, _ => none

def truth : Condition → Truth
  | .always => some true
  | .never => some false
  | .same a b => sameCell (s.cell a) (s.cell b)
  | .like key pattern => (s.cell key).map (like · pattern)
  | .or a b => Truth.or a.truth b.truth
  | .and a b => Truth.and a.truth b.truth
  | .not a => Truth.not a.truth
  | .group a => a.truth
  | .orFalse a => some (a.truth.getD false)

/-- A row is taken, or a branch entered, only if the condition is true. -/
def holds (c : Condition) : Bool := c.truth like s = some true

theorem truth_orFalse (c : Condition) :
    (Condition.orFalse c).truth like s = some (c.holds like s) := by
  rw [truth, holds]
  rcases c.truth like s with _ | _ | _ <;> rfl

theorem truth_any (cs : List Condition) :
    (any cs).truth like s = (cs.map (truth like s)).foldr Truth.or (some false) := by
  induction cs with
  | nil => rfl
  | cons c cs ih =>
    cases cs with
    | nil => simp [any]
    | cons d ds => simpa [any, truth] using congrArg (Truth.or (c.truth like s)) ih

/-- Where all conditions of a chain are on one cell, so is the chain: it is undecided if the cell has
no value, and else holds if one of them does. -/
theorem truth_any_map {α : Type} {xs : List α} {f : α → Condition} {g : α → V → Bool} {c : Column}
    (h : xs ≠ []) (hf : ∀ x ∈ xs, (f x).truth like s = (s.cell c).map (g x)) :
    (any (xs.map f)).truth like s = (s.cell c).map fun v => xs.any (g · v) := by
  rw [truth_any]
  induction xs with
  | nil => exact absurd rfl h
  | cons x xs ih =>
    rw [List.map_cons, List.map_cons, List.foldr_cons, hf x List.mem_cons_self]
    by_cases hxs : xs = []
    · subst hxs
      simp
    · rw [ih hxs fun y hy => hf y (List.mem_cons_of_mem x hy)]
      cases s.cell c <;> simp

/-- Whether a value matches one of the patterns. -/
def matchesOne (patterns : List Text) (v : V) : Bool := patterns.any (like v)

theorem truth_likes {c : Column} {patterns : List Text} (h : patterns ≠ []) :
    (any (patterns.map (.like c))).truth like s = (s.cell c).map (matchesOne like patterns) :=
  truth_any_map like s h fun _ _ => rfl

end Condition

end TypedMirror.Sql
