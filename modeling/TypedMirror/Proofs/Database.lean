import Mathlib.Logic.Function.Basic
import TypedMirror.Proofs.Truth

/-!
# A database with triggers

What the statements of a plan do.  A table has a primary column: each of its rows has an id there, and
no two the same.  A statement that cannot be carried out has no result.  Every change of a row is
followed by the triggers of its table for that kind of change, whose actions may set off further
triggers; `depth` bounds how deep these are nested.  Columns have no types here: every value is kept
as it is given.

* `change_of_quiet` — a change of a table without triggers changes nothing else;
* `runActions_of_quiet` — actions on such tables do to each table what those on it alone would do.
-/

namespace TypedMirror.Sql

/-- A change of one row. -/
inductive Change (V : Type)
  | insert (new : Row V)
  | update (old new : Row V)
  | delete (old : Row V)

namespace Change

variable {V : Type}

def event : Change V → Event
  | .insert _ => .insert
  | .update _ _ => .update
  | .delete _ => .delete

/-- The row before or after the change that is not there has no values. -/
def missing : Row V := fun _ => none

/-- What the trigger of a change reads its columns from. -/
def scope : Change V → Scope V
  | .insert new => ⟨missing, missing, new⟩
  | .update old new => ⟨missing, old, new⟩
  | .delete old => ⟨missing, old, missing⟩

end Change

/-- A table, its rows in the order in which they came. -/
structure Table (V : Type) where
  /-- The column of the ids. -/
  primary : Text
  rows : List (Row V)

structure Trigger where
  name : Text
  event : Event
  table : Text
  body : List BodyPart
deriving DecidableEq, Repr

structure Db (V : Type) where
  tables : Text → Option (Table V)
  triggers : List Trigger

/-- Whether a name is among others is decided by comparing texts. -/
instance : LawfulBEq Text := inferInstanceAs (LawfulBEq (List Char))

/-- The names of the columns, in table order. -/
def Columns.names (c : Columns) : List Text := [c.id, c.object, c.key, c.value]

variable {V : Type}

/-- The row with values in these columns only. -/
def Row.only (columns : Columns) (r : Row V) : Row V :=
  fun c => if c ∈ columns.names then r c else none

/-- The row with the cells of another in these columns. -/
def Row.assign (columns : List Text) (r new : Row V) : Row V :=
  fun c => if c ∈ columns then new c else r c

namespace Db

variable (db : Db V) (table : Text)

def put (t : Table V) : Db V :=
  { db with tables := Function.update db.tables table (some t) }

/-- The triggers for a change of a table. -/
def triggersOn (e : Event) : List Trigger :=
  db.triggers.filter fun t => t.table = table ∧ t.event = e

/-- No trigger follows the changes of the table. -/
def Quiet : Prop := ∀ t ∈ db.triggers, t.table ≠ table

@[simp] theorem put_tables (t : Table V) (x : Text) :
    (db.put table t).tables x = if x = table then some t else db.tables x := by
  simp [put, Function.update_apply]

@[simp] theorem put_triggers (t : Table V) : (db.put table t).triggers = db.triggers := rfl

@[simp] theorem put_put (t t' : Table V) : (db.put table t).put table t' = db.put table t' := by
  simp [put]

variable {db table}

theorem put_self {t : Table V} (h : db.tables table = some t) : db.put table t = db := by
  unfold put
  rw [← h, Function.update_eq_self]

theorem triggersOn_of_quiet (h : db.Quiet table) (e : Event) : db.triggersOn table e = [] := by
  unfold triggersOn
  rw [List.filter_eq_nil_iff]
  intro t ht hte
  have := h t ht
  simp_all

end Db

variable [DecidableEq V]

/-! ## Changes of a table -/

/-- What is done to a table: the table afterwards, and the rows that have changed. -/
abbrev Effect (V : Type) := Table V → Option (Table V × List (Change V))

namespace Effect

/-- A row goes in if its id is free. -/
def insert (new : Row V) : Effect V := fun t =>
  match new t.primary with
  | none => none
  | some i =>
    if t.rows.any (fun r => r t.primary = some i) then none
    else some (⟨t.primary, t.rows ++ [new]⟩, [.insert new])

/-- A row goes in, or the row with its id takes over its cells in the columns. -/
def upsert (columns : List Text) (new : Row V) : Effect V := fun t =>
  match t.rows.find? (fun r => r t.primary = new t.primary) with
  | none => insert new t
  | some old =>
    let next := Row.assign columns old new
    some (⟨t.primary, t.rows.map fun r => if r t.primary = new t.primary then next else r⟩,
      [.update old next])

/-- The rows that `gone` says are taken out. -/
def delete (gone : Row V → Bool) : Effect V := fun t =>
  some (⟨t.primary, t.rows.filter (!gone ·)⟩, (t.rows.filter gone).map .delete)

/-- The row with an id becomes another row, if the id of that is free. -/
def replace (id : V) (new : Row V) : Effect V := fun t =>
  match new t.primary with
  | none => none
  | some j =>
    if j ≠ id ∧ t.rows.any (fun r => r t.primary = some j) then none
    else some (⟨t.primary, t.rows.map fun r => if r t.primary = some id then new else r⟩,
      (t.rows.filter fun r => r t.primary = some id).map (.update · new))

end Effect

namespace Db

/-- Changes a table; `after` is what follows the change of a row. -/
def change (after : Text → Change V → Db V → Option (Db V)) (table : Text)
    (e : Effect V) (db : Db V) : Option (Db V) := do
  let t ← db.tables table
  let (t', changes) ← e t
  changes.foldlM (fun db c => after table c db) (db.put table t')

omit [DecidableEq V] in
theorem change_eq (after : Text → Change V → Db V → Option (Db V)) {table : Text} {e : Effect V}
    {db : Db V} {t t' : Table V} {cs : List (Change V)} (ht : db.tables table = some t)
    (he : e t = some (t', cs)) :
    db.change after table e = cs.foldlM (fun db c => after table c db) (db.put table t') := by
  simp [change, ht, he]

end Db

/-! ## Triggers -/

section Run

variable (like : V → Text → Bool)

namespace RowAction

def table : RowAction → Text
  | .insert t _ => t
  | .upsert t _ => t
  | .delete t _ => t

def effect (s : Scope V) : RowAction → Effect V
  | .insert _ columns => .insert (Row.only columns s.new)
  | .upsert _ columns => .upsert [columns.object, columns.key, columns.value] (Row.only columns s.new)
  | .delete _ condition => .delete fun r => condition.holds like { s with row := r }

end RowAction

/-- The action that a part of a body comes to, if any: of a choice, that of the first branch whose
condition is true. -/
def BodyPart.action? (s : Scope V) : BodyPart → Option RowAction
  | .choose branches => (branches.find? fun b => b.1.holds like s).map (·.2)
  | .run action => some action

/-- The actions that a body comes to. -/
def bodyActions (s : Scope V) (body : List BodyPart) : List RowAction :=
  body.filterMap (·.action? like s)

variable (after : Text → Change V → Db V → Option (Db V))

def runActions (s : Scope V) (actions : List RowAction) (db : Db V) : Option (Db V) :=
  actions.foldlM (fun db a => db.change after a.table (a.effect like s)) db

def runBody (s : Scope V) (body : List BodyPart) (db : Db V) : Option (Db V) :=
  runActions like after s (bodyActions like s body) db

/-- What follows a change: the triggers for it, one after the other, as long as they are not nested
too deep. -/
def fire : Nat → Text → Change V → Db V → Option (Db V)
  | 0, table, c, db => if db.triggersOn table c.event = [] then some db else none
  | depth + 1, table, c, db =>
    (db.triggersOn table c.event).foldlM (fun db t => runBody like (fire depth) c.scope t.body db) db

/-! ## Statements and writes -/

/-- The scope of a condition on the rows of one table. -/
def Scope.at (r : Row V) : Scope V := ⟨r, Change.missing, Change.missing⟩

/-- A new table must not be there yet, nor may two of its columns have one name; a new trigger must
have a name of its own. -/
def Statement.run (depth : Nat) : Statement → Db V → Option (Db V)
  | .dropTrigger name, db => some { db with triggers := db.triggers.filter (·.name ≠ name) }
  | .dropTable table, db =>
    some ⟨Function.update db.tables table none, db.triggers.filter (·.table ≠ table)⟩
  | .createTable table columns _, db =>
    if (db.tables table).isSome ∨ ¬ columns.names.Nodup then none
    else some (db.put table ⟨columns.id, []⟩)
  | .backfill table columns source condition, db => do
    let _ ← db.tables table
    let t ← db.tables source
    let taken := t.rows.filter fun r => condition.all (·.holds like (Scope.at r))
    taken.foldlM (fun db r => db.change (fire like depth) table (.insert (r.only columns))) db
  | .createTrigger name event source body, db =>
    if db.triggers.any (·.name = name) ∨ (db.tables source).isNone then none
    else some { db with triggers := db.triggers ++ [⟨name, event, source, body⟩] }

def runStatements (depth : Nat) (ss : List Statement) (db : Db V) : Option (Db V) :=
  ss.foldlM (fun db s => s.run like depth db) db

/-- What the host does to a table. -/
inductive Write (V : Type)
  | insert (table : Text) (row : Row V)
  | delete (table : Text) (id : V)
  | update (table : Text) (id : V) (row : Row V)

namespace Write

def table : Write V → Text
  | .insert t _ => t
  | .delete t _ => t
  | .update t _ _ => t

def effect : Write V → Effect V
  | .insert _ row => .insert row
  | .delete _ id => fun t => Effect.delete (fun r => r t.primary = some id) t
  | .update _ id row => .replace id row

end Write

def runWrites (ws : List (Write V)) (db : Db V) : Option (Db V) :=
  ws.foldlM (fun db w => db.change after w.table w.effect) db

/-- Nothing follows a change: as if there were no triggers. -/
def ignore : Text → Change V → Db V → Option (Db V) := fun _ _ db => some db

omit [DecidableEq V] in
theorem change_ignore_of {table : Text} {e : Effect V} {db : Db V} {t t' : Table V}
    {cs : List (Change V)} (ht : db.tables table = some t) (he : e t = some (t', cs)) :
    db.change ignore table e = some (db.put table t') := by
  have hnothing : ∀ cs : List (Change V),
      cs.foldlM (fun db c => ignore table c db) (db.put table t') = some (db.put table t') := by
    intro cs
    induction cs with
    | nil => rfl
    | cons c cs ih => exact ih
  rw [Db.change_eq ignore ht he]
  exact hnothing cs

omit [DecidableEq V] in
theorem change_ignore {table : Text} {e : Effect V} {db db' : Db V}
    (h : db.change ignore table e = some db') :
    ∃ t t' cs, db.tables table = some t ∧ e t = some (t', cs) ∧ db' = db.put table t' := by
  obtain ⟨t, ht, hbind⟩ := Option.bind_eq_some_iff.1 h
  obtain ⟨⟨t', cs⟩, he, -⟩ := Option.bind_eq_some_iff.1 hbind
  exact ⟨t, t', cs, ht, he, Option.some.inj (h.symm.trans (change_ignore_of ht he))⟩

end Run

/-! ## The triggers of a database -/

section Triggers

variable {like : V → Text → Bool}

omit [DecidableEq V] in
theorem foldlM_triggers {α : Type} {f : Db V → α → Option (Db V)} {xs : List α}
    {db db' : Db V} (hf : ∀ db x db', f db x = some db' → db'.triggers = db.triggers)
    (h : xs.foldlM f db = some db') : db'.triggers = db.triggers := by
  induction xs generalizing db with
  | nil =>
    cases h
    rfl
  | cons x xs ih =>
    rw [List.foldlM_cons] at h
    obtain ⟨db₁, h₁, h⟩ := Option.bind_eq_some_iff.1 h
    rw [ih h, hf db x db₁ h₁]

omit [DecidableEq V] in
theorem change_triggers {after : Text → Change V → Db V → Option (Db V)}
    (hafter : ∀ t c db db', after t c db = some db' → db'.triggers = db.triggers) {table : Text}
    {e : Effect V} {db db' : Db V} (h : db.change after table e = some db') :
    db'.triggers = db.triggers := by
  obtain ⟨t, -, h⟩ := Option.bind_eq_some_iff.1 h
  obtain ⟨⟨t', cs⟩, -, h⟩ := Option.bind_eq_some_iff.1 h
  have hfold : cs.foldlM (fun db c => after table c db) (db.put table t') = some db' := h
  exact (foldlM_triggers (fun db c db' => hafter table c db db') hfold).trans
    (Db.put_triggers db table t')

/-- Triggers make no triggers. -/
theorem fire_triggers {depth : Nat} {table : Text} {c : Change V} {db db' : Db V}
    (h : fire like depth table c db = some db') : db'.triggers = db.triggers := by
  induction depth generalizing table c db db' with
  | zero =>
    unfold fire at h
    split at h
    · cases h
      rfl
    · cases h
  | succ depth ih =>
    refine foldlM_triggers ?_ h
    intro db t db' hbody
    refine foldlM_triggers ?_ hbody
    intro db a db' haction
    exact change_triggers (fun _ _ _ _ => ih) haction

end Triggers

/-! ## Tables without triggers -/

section Quiet

variable {like : V → Text → Bool} {depth : Nat} {db : Db V} {table : Text}

theorem fire_of_quiet (h : db.Quiet table) (c : Change V) : fire like depth table c db = some db := by
  cases depth with
  | zero => simp [fire, Db.triggersOn_of_quiet h]
  | succ n => simp [fire, Db.triggersOn_of_quiet h]

theorem change_of_quiet {e : Effect V} {t t' : Table V} {cs : List (Change V)} (h : db.Quiet table)
    (ht : db.tables table = some t) (he : e t = some (t', cs)) :
    db.change (fire like depth) table e = some (db.put table t') := by
  have hq : (db.put table t').Quiet table := h
  have hfold : ∀ cs : List (Change V),
      cs.foldlM (fun db c => fire like depth table c db) (db.put table t') =
        some (db.put table t') := by
    intro cs
    induction cs with
    | nil => rfl
    | cons c cs ih =>
      rw [List.foldlM_cons, fire_of_quiet hq]
      exact ih
  rw [Db.change_eq _ ht he]
  exact hfold cs

/-- What actions do to the one table they are on. -/
def evolve (like : V → Text → Bool) (s : Scope V) (actions : List RowAction) (t : Table V) :
    Option (Table V) :=
  actions.foldlM (fun t a => (a.effect like s t).map (·.1)) t

theorem evolve_cons (like : V → Text → Bool) (s : Scope V) (a : RowAction) (as : List RowAction)
    (t : Table V) :
    evolve like s (a :: as) t = ((a.effect like s t).map (·.1)).bind (evolve like s as) := rfl

theorem evolve_singleton (like : V → Text → Bool) (s : Scope V) (a : RowAction) (t : Table V) :
    evolve like s [a] t = (a.effect like s t).map (·.1) := by
  rw [evolve_cons]
  cases a.effect like s t <;> rfl

/-- The actions on a table. -/
def actionsOn (table : Text) (actions : List RowAction) : List RowAction :=
  actions.filter (·.table = table)

theorem actionsOn_append (table : Text) (as bs : List RowAction) :
    actionsOn table (as ++ bs) = actionsOn table as ++ actionsOn table bs := List.filter_append as bs

theorem actionsOn_eq_nil {actions : List RowAction} (h : ∀ a ∈ actions, a.table ≠ table) :
    actionsOn table actions = [] := by
  unfold actionsOn
  rw [List.filter_eq_nil_iff]
  intro a ha
  simpa using h a ha

/-- Each table goes its own way, as long as no action on it fails. -/
theorem runActions_of_quiet {s : Scope V} {actions : List RowAction}
    (hq : ∀ a ∈ actions, db.Quiet a.table)
    (hok : ∀ a ∈ actions, ∃ t, db.tables a.table = some t ∧
      (evolve like s (actionsOn a.table actions) t).isSome) :
    ∃ db', runActions like (fire like depth) s actions db = some db' ∧ db'.triggers = db.triggers ∧
      ∀ x, db'.tables x = (db.tables x).bind (evolve like s (actionsOn x actions)) := by
  induction actions generalizing db with
  | nil => exact ⟨db, rfl, rfl, fun x => by cases h : db.tables x <;> simp [actionsOn, evolve]⟩
  | cons a as ih =>
    obtain ⟨t, ht, hsome⟩ := hok a List.mem_cons_self
    have hself : actionsOn a.table (a :: as) = a :: actionsOn a.table as := by simp [actionsOn]
    have hother : ∀ x, x ≠ a.table → actionsOn x (a :: as) = actionsOn x as := by
      intro x hx
      simp [actionsOn, hx.symm]
    -- the first action does not fail, since the actions on its table do not
    obtain ⟨⟨t', cs⟩, he⟩ : ∃ p, a.effect like s t = some p := by
      rw [hself, evolve_cons] at hsome
      cases he : a.effect like s t with
      | none => simp [he] at hsome
      | some p => exact ⟨p, rfl⟩
    have hstep : evolve like s (actionsOn a.table (a :: as)) t =
        evolve like s (actionsOn a.table as) t' := by
      rw [hself, evolve_cons, he]
      rfl
    have hok' : ∀ b ∈ as, ∃ u, (db.put a.table t').tables b.table = some u ∧
        (evolve like s (actionsOn b.table as) u).isSome := by
      intro b hb
      by_cases hba : b.table = a.table
      · refine ⟨t', by simp [hba], ?_⟩
        rw [hba, ← hstep]
        exact hsome
      · obtain ⟨u, hu, hus⟩ := hok b (List.mem_cons_of_mem a hb)
        refine ⟨u, by simp [hba, hu], ?_⟩
        rwa [hother _ hba] at hus
    obtain ⟨db', hrun, htr, htab⟩ := @ih (db.put a.table t')
      (fun b hb => hq b (List.mem_cons_of_mem a hb)) hok'
    refine ⟨db', ?_, htr, ?_⟩
    · unfold runActions at hrun ⊢
      rw [List.foldlM_cons, change_of_quiet (hq a List.mem_cons_self) ht he]
      exact hrun
    · intro x
      rw [htab x, Db.put_tables]
      by_cases hx : x = a.table
      · subst hx
        simp [ht, hstep]
      · simp [hx, hother x hx]

end Quiet

end TypedMirror.Sql
