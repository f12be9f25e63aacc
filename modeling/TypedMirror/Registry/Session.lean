import TypedMirror.Registry.Basic

/-!
# A session of registration

What a host does from the first registration on, step by step: a session is in its setup phase until
it is finalized, and each step either changes the session or leaves it as it was.
-/

namespace TypedMirror

/-- A session in one of its two phases.  The window can still be closed after the setup. -/
inductive Session
  | setup (s : Setup)
  | committed (r : Registry) (window : Window)
deriving DecidableEq, Repr

namespace Session

inductive Step
  | register (source type : Text) (args : List Text)
  | add (m : Mirror)
  | addKey (id pattern : Text)
  | reset
  | finalize
  | close
  | lookup (id : Text)
  | sourceTables
  | mirrorsFor (source : Text)
deriving DecidableEq, Repr

/-- What a step answers. -/
inductive Answer
  | done
  | id (id : Text)
  | mirror (m : Option Mirror)
  | names (names : List Text)
  | refused (e : MirrorError)
  /-- The phase of the session does not offer the step. -/
  | wrongPhase
deriving DecidableEq, Repr

/-- The session after a change of its setup, or as it was with the error. -/
def changed (s : Setup) (answer : Answer) : Except MirrorError Setup → Session × Answer
  | .ok s' => (.setup s', answer)
  | .error e => (.setup s, .refused e)

def run : Session → Step → Session × Answer
  | .setup s, .register source type args =>
    match s.register source type args with
    | .ok (s', id) => (.setup s', .id id)
    | .error e => (.setup s, .refused e)
  | .setup s, .add m => changed s (.id m.id) (s.add m)
  | .setup s, .addKey id pattern => changed s .done (s.addKey id pattern)
  | .setup s, .reset => (.setup s.reset, .done)
  | .setup s, .finalize => (.committed s.finalize s.window, .done)
  | .setup s, .close => (.setup s.close, .done)
  | .setup s, .lookup id => (.setup s, .mirror (s.lookup id))
  | .committed r _, .close => (.committed r .closed, .done)
  | .committed r w, .lookup id => (.committed r w, .mirror (r.lookup id))
  | .committed r w, .sourceTables => (.committed r w, .names r.sourceTables)
  | .committed r w, .mirrorsFor source =>
    (.committed r w, .names ((r.mirrorsFor source).map (·.id)))
  | s, _ => (s, .wrongPhase)

def mirrors : Session → List Mirror
  | .setup s => s.mirrors
  | .committed r _ => r.mirrors

def index : Session → Index
  | .setup s => s.index
  | .committed r _ => r.index

def isOpen : Session → Bool
  | .setup s => s.window = .isOpen
  | .committed _ w => w = .isOpen

end Session

end TypedMirror
