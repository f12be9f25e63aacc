import TypedMirror.Registry.Declaration

/-!
# Settings

What one file says: how to reach the store, which tables may be mirrored, which mirrors there are,
and how much to log.
-/

namespace TypedMirror

/-- How to reach the store. -/
structure Database where
  host : Text := "localhost".toList
  tcpPort : Nat := 3306
  database : Text := "wordpress".toList
  username : Text := "root".toList
  password : Option Text := none
  /-- The environment variable that holds the whole address, if it is set. -/
  credentialsVariable : Option Text := none
  maxConnections : Nat := 2
deriving DecidableEq, Repr

namespace Database

/-- The place of the database, without the credentials. -/
def target (d : Database) : Text :=
  d.host ++ ':' :: Numeral.write d.tcpPort ++ '/' :: d.database

def credentials (d : Database) : Text :=
  match d.password with
  | none => d.username
  | some password => d.username ++ ':' :: password

/-- The address of the database in an environment. -/
def connectionString (d : Database) (environment : Text → Option Text) : Text :=
  (d.credentialsVariable.bind environment).getD
    ("mysql://".toList ++ d.credentials ++ '@' :: d.target)

end Database

structure Settings where
  database : Database := {}
  catalog : Catalog := .standard
  mirrors : List Declaration := []
  logLevel : Text := "info".toList
deriving DecidableEq, Repr

namespace Settings

/-- The declared mirrors, registered. -/
def setup (s : Settings) : Except MirrorError Setup := Setup.ofDeclarations s.catalog s.mirrors

/-- What makes well-formed settings useless. -/
inductive Flaw
  | noTables
  | unnamedTable
deriving DecidableEq, Repr

def Flaw.message : Flaw → Text
  | .noTables => "catalog must list at least one metadata table".toList
  | .unnamedTable => "catalog table name cannot be empty".toList

/-- The first flaw of the settings. -/
def flaw? (s : Settings) : Option Flaw :=
  if s.catalog.tables.isEmpty then some .noTables
  else if s.catalog.tables.any fun t => (Text.trim t.name).isEmpty then some .unnamedTable
  else none

end Settings

end TypedMirror
