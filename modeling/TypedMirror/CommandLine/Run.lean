import TypedMirror.CommandLine.Request
import TypedMirror.Plan.Script
import TypedMirror.Report
import TypedMirror.Settings.Reader

/-!
# Running a command

A command is a function of its arguments, the environment and the files it can read.
-/

namespace TypedMirror.CommandLine

/-- Why a file cannot be read. -/
inductive ReadFailure
  | notFound
  | accessDenied
  | notADirectory
  | isADirectory
  | other (text : Text)
deriving DecidableEq, Repr

def ReadFailure.message : ReadFailure → Text
  | .notFound => "No such file or directory (os error 2)".toList
  | .accessDenied => "Permission denied (os error 13)".toList
  | .notADirectory => "Not a directory (os error 20)".toList
  | .isADirectory => "Is a directory (os error 21)".toList
  | .other text => text

/-- What a command leaves behind. -/
structure Outcome where
  code : Nat
  output : Text
  errors : Text
deriving DecidableEq, Repr

namespace Outcome

def printed (output : Text) : Outcome := ⟨0, output, []⟩

/-- The arguments were no request. -/
def misused (errors : Text) : Outcome := ⟨2, [], errors⟩

/-! ## Failures -/

/-- The text with a margin in front of each line after the first. -/
def indentLines (margin : Text) (t : Text) : Text :=
  t.flatMap fun c => if c = '\n' then '\n' :: margin else [c]

/-- A cause among several, with its number. -/
def numberedCause (c : Text × Nat) : Text :=
  let number := Numeral.write c.2
  List.replicate (5 - number.length) ' ' ++ number ++ ": ".toList
    ++ indentLines (List.replicate 7 ' ') c.1

def causeLines : List Text → List Text
  | [cause] =>
    let margin := List.replicate 4 ' '
    [margin ++ indentLines margin cause]
  | causes => causes.zipIdx.map numberedCause

/-- A failure and its causes, the nearest first. -/
def failed (what : Text) (causes : List Text) : Outcome :=
  let lines := (causeLines causes).flatMap fun line => '\n' :: line
  ⟨1, [], "Error: ".toList ++ what ++ "\n\nCaused by:".toList ++ lines ++ ['\n']⟩

end Outcome

/-! ## Settings -/

/-- Why the settings cannot be loaded. -/
inductive LoadError
  | unreadable (f : ReadFailure)
  | settings (e : Settings.Error)
deriving DecidableEq, Repr

/-- The causes of a failure to load, the nearest first. -/
def LoadError.causes : LoadError → List Text
  | .unreadable f => ["IO error: ".toList ++ f.message, f.message]
  | .settings (.yaml e) => ["YAML parse error: ".toList ++ e.message, e.message]
  | .settings (.flawed f) => ["Configuration error: ".toList ++ f.message]

/-- The settings in the content of a file. -/
def loadSettings (content : Except ReadFailure Text) : Except LoadError Settings :=
  match content with
  | .error f => .error (.unreadable f)
  | .ok t => (Settings.read t).mapError .settings

def pathVariable : Text := "METAMIRROR_CONFIG".toList

/-- The path of the settings: as given, else from the environment, else the standard one.  Each of
the two places that gives no path looks into the environment, and an empty path there is none. -/
def settingsPath? (environment : Text → Option Text) (outer inner : Option Text) : Option Text :=
  if environment pathVariable = some [] ∧ (outer.isNone ∨ inner.isNone) then none
  else some ((inner <|> outer <|> environment pathVariable).getD "metamirror.yaml".toList)

/-! ## Commands -/

/-- A JSON value on lines of its own. -/
def jsonText (j : Json) : Text := j.pretty 0 ++ ['\n']

def listing (mirrors : List Mirror) : Text :=
  if mirrors.isEmpty then "No mirrors declared.\n".toList
  else
    line [Numeral.write mirrors.length, " mirror(s):".toList]
      ++ mirrors.flatMap fun m => line ["  ".toList, m.describe]

/-- What a command does with the registered mirrors. -/
def runRegistered (s : Settings) (r : Registry) : Command → Outcome
  | .check => .printed (listing r.mirrors)
  | .plan asJson =>
    match Plan.write r with
    | .error e => .failed "failed to plan mirrors".toList [e.message]
    | .ok p => .printed (if asJson then jsonText (Report.ofPlan p) else p.script)
  | .commit =>
    .failed ("failed to connect to ".toList ++ s.database.target)
      ["no database client is installed".toList]
  | .route query explained =>
    let d := Routing.decision r.mirrors query
    .printed (if explained then jsonText (Report.ofDecision d) else line [d.redirected])
  | .parse _ => .printed []

/-- What `parse` does. -/
def runParse (query : Text) : Outcome :=
  match Query.parse query with
  | .error e => .failed "query not supported".toList [e.message]
  | .ok q => .printed (jsonText (Report.ofQuery q))

/-- What a command does with the settings of a file. -/
def runCommand (path : Text) (content : Except ReadFailure Text) (c : Command) : Outcome :=
  match c with
  | .parse query => runParse query
  | c =>
    match loadSettings content with
    | .error e => .failed ("failed to load configuration from ".toList ++ path) e.causes
    | .ok s =>
      match s.setup with
      | .error e => .failed "invalid mirror declaration".toList [e.message]
      | .ok setup => runRegistered s setup.finalize c

def versionText : Text := "metamirror 0.1.0\n".toList

def helpText : Text :=
  "Typed mirrors of key/value metadata tables\n\nUsage: metamirror [-c FILE] <COMMAND>\n\nCommands:\n  check\n  plan [--json]\n  commit\n  parse <QUERY>\n  rewrite [--explain] <QUERY>\n".toList

/-- The path of the file that a request reads. -/
def wantedPath (environment : Text → Option Text) : Request → Option Text
  | .command (.parse _) _ _ => none
  | .command _ outer inner => settingsPath? environment outer inner
  | _ => none

/-- Runs a request. -/
def run (environment : Text → Option Text) (files : Text → Except ReadFailure Text)
    (r : Request) : Outcome :=
  match r with
  | .version => .printed versionText
  | .help => .printed helpText
  | .misuse => .misused helpText
  | .command c outer inner =>
    match settingsPath? environment outer inner with
    | none => .misused helpText
    | some path => runCommand path (files path) c

end TypedMirror.CommandLine
