import TypedMirror.CommandLine.Run

/-!
# The program

Reads the file that a request asks for, runs the request, and prints what it leaves behind.
-/

namespace TypedMirror.CommandLine

/-- The failure behind an error of the system. -/
def readFailure : IO.Error → ReadFailure
  | .noFileOrDirectory .. => .notFound
  | .permissionDenied .. => .accessDenied
  | .inappropriateType .. => .isADirectory
  | e => .other (toString e).toList

/-- The content of a file. -/
def readContent (path : Text) : IO (Except ReadFailure Text) := do
  try
    return .ok (← IO.FS.readFile (String.ofList path)).toList
  catch e =>
    return .error (readFailure e)

end TypedMirror.CommandLine

open TypedMirror TypedMirror.CommandLine in
def main (args : List String) : IO UInt32 := do
  let request := read (args.map String.toList)
  let path ← IO.getEnv (String.ofList pathVariable)
  let environment (name : Text) : Option Text :=
    if name = pathVariable then path.map String.toList else none
  let content ←
    match wantedPath environment request with
    | some path => readContent path
    | none => pure (.error .notFound)
  let outcome := run environment (fun _ => content) request
  IO.print (String.ofList outcome.output)
  IO.eprint (String.ofList outcome.errors)
  return UInt32.ofNat outcome.code
