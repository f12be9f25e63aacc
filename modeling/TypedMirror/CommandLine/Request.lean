import TypedMirror.Text

/-!
# Requests of the command line

The arguments name a command.  The path of the settings may be given in front of the command or
among its own arguments, where it wins.
-/

namespace TypedMirror.CommandLine

inductive Command
  /-- List the declared mirrors. -/
  | check
  /-- Print what a commit would run. -/
  | plan (asJson : Bool)
  | commit
  /-- Print what is known of a query. -/
  | parse (query : Text)
  /-- Print a query as it would be sent to the store. -/
  | route (query : Text) (explained : Bool)
deriving DecidableEq, Repr

inductive Request
  /-- A command, and the path of the settings if it is given in front of the command (`outer`) or
  among its own arguments (`inner`). -/
  | command (c : Command) (outer inner : Option Text)
  | version
  | help
  /-- The arguments are no request. -/
  | misuse
deriving DecidableEq, Repr

/-! ## Single arguments -/

/-- What an argument looks like, before any `--`. -/
inductive Shape
  /-- Everything after it is a value. -/
  | escape
  | long (name : Text) (value : Option Text)
  | short (letters : Text)
  | value (t : Text)
deriving DecidableEq, Repr

def shape : Text → Shape
  | ['-', '-'] => .escape
  | '-' :: '-' :: r =>
    match Text.cut ['='] r with
    | some (name, value) => .long name (some value)
    | none => .long r none
  | '-' :: c :: r => .short (c :: r)
  | t => .value t

/-- Whether an argument can be the value of the option before it. -/
def isValue (t : Text) : Bool :=
  match shape t with
  | .value _ => true
  | _ => false

/-- What the arguments of one level have said so far. -/
structure Seen where
  path : Option Text := none
  switched : Bool := false
  values : List Text := []
deriving DecidableEq, Repr

/-- What an argument and those after it say of the path of the settings. -/
inductive PathOption
  /-- The argument is no option of a path. -/
  | absent
  /-- The path is missing or empty, or has been given before. -/
  | bad
  /-- A path is given, and these arguments come after it. -/
  | given (s : Seen) (rest : List Text)
deriving DecidableEq, Repr

def Seen.withPath (s : Seen) (path : Text) (rest : List Text) : PathOption :=
  if s.path.isSome || path.isEmpty then .bad else .given { s with path := some path } rest

/-- The path is the next argument. -/
def Seen.withNext (s : Seen) : List Text → PathOption
  | v :: rest => if isValue v then s.withPath v rest else .bad
  | [] => .bad

def pathOption (s : Seen) (a : Shape) (rest : List Text) : PathOption :=
  match a with
  | .long name value =>
    if name ≠ "config".toList then .absent
    else
      match value with
      | some v => s.withPath v rest
      | none => s.withNext rest
  | .short ['c'] => s.withNext rest
  | .short ('c' :: '=' :: v) => s.withPath v rest
  | .short ('c' :: v) => s.withPath v rest
  | _ => .absent

/-- Whether the argument asks for help. -/
def asksHelp : Shape → Bool
  | .long name none => name == "help".toList
  | .short ('h' :: _) => true
  | _ => false

def asksVersion : Shape → Bool
  | .long name none => name == "version".toList
  | .short ('V' :: _) => true
  | _ => false

section Length

variable {s s' : Seen} {args rest : List Text}

theorem rest_of_withPath {path : Text} (h : s.withPath path args = .given s' rest) :
    rest = args := by
  unfold Seen.withPath at h
  split at h
  · simp at h
  · cases h
    rfl

theorem length_of_withNext (h : s.withNext args = .given s' rest) :
    rest.length ≤ args.length := by
  unfold Seen.withNext at h
  split at h
  · split at h
    · rw [rest_of_withPath h]
      simp
    · simp at h
  · simp at h

theorem length_of_pathOption {a : Shape} (h : pathOption s a args = .given s' rest) :
    rest.length ≤ args.length := by
  unfold pathOption at h
  split at h
  · split at h
    · simp at h
    · split at h
      · exact rest_of_withPath h ▸ Nat.le_refl _
      · exact length_of_withNext h
  · exact length_of_withNext h
  · exact rest_of_withPath h ▸ Nat.le_refl _
  · exact rest_of_withPath h ▸ Nat.le_refl _
  · simp at h

end Length

/-! ## The arguments of a command -/

/-- What a command takes: a switch, and so many values. -/
structure Form where
  switch : Option String
  values : Nat
deriving DecidableEq, Repr

/-- The outcome of reading the arguments of a command. -/
inductive Arguments
  | seen (s : Seen)
  | help
  | misuse
deriving DecidableEq, Repr

/-- The values, if there are not too many of them. -/
def Form.take (f : Form) (s : Seen) (values : List Text) : Arguments :=
  let all := s.values ++ values
  if all.length ≤ f.values then .seen { s with values := all } else .misuse

def Form.read (f : Form) (s : Seen) (args : List Text) : Arguments :=
  match args with
  | [] => .seen s
  | a :: rest =>
    match h : pathOption s (shape a) rest with
    | .given s' rest' =>
      have := length_of_pathOption h
      f.read s' rest'
    | .bad => .misuse
    | .absent =>
      if asksHelp (shape a) then .help
      else
        match shape a with
        | .escape => f.take s rest
        | .long name none =>
          if f.switch.any (·.toList == name) && !s.switched then
            f.read { s with switched := true } rest
          else .misuse
        | .value t =>
          match f.take s [t] with
          | .seen s' => f.read s' rest
          | other => other
        | _ => .misuse
termination_by args.length
decreasing_by all_goals simp only [List.length_cons]; omega

/-- The form of a command, and the command with its switch and values. -/
def commands : List (String × Form × (Seen → Command)) :=
  [("check", ⟨none, 0⟩, fun _ => .check),
    ("plan", ⟨some "json", 0⟩, fun s => .plan s.switched),
    ("commit", ⟨none, 0⟩, fun _ => .commit),
    ("parse", ⟨none, 1⟩, fun s => .parse s.values.flatten),
    ("rewrite", ⟨some "explain", 1⟩, fun s => .route s.values.flatten s.switched)]

/-- The request of a command's name and arguments; the path `outer` was given in front of them. -/
def readCommand (outer : Option Text) (name : Text) (args : List Text) : Request :=
  match commands.find? fun c => c.1.toList == name with
  | none => if name = "help".toList then .help else .misuse
  | some (_, form, command) =>
    match form.read {} args with
    | .help => .help
    | .misuse => .misuse
    | .seen s =>
      if s.values.length = form.values then .command (command s) outer s.path else .misuse

/-- The request of all arguments. -/
def readFrom (s : Seen) (args : List Text) : Request :=
  match args with
  | [] => .misuse
  | a :: rest =>
    match h : pathOption s (shape a) rest with
    | .given s' rest' =>
      have := length_of_pathOption h
      readFrom s' rest'
    | .bad => .misuse
    | .absent =>
      if asksVersion (shape a) then .version
      else if asksHelp (shape a) then .help
      else
        match shape a with
        | .value name => readCommand s.path name rest
        | _ => .misuse
termination_by args.length

def read (args : List Text) : Request := readFrom {} args

end TypedMirror.CommandLine
