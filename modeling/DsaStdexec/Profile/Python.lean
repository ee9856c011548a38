import DsaStdexec.Lib.Checks
import DsaStdexec.Lib.Json
import DsaStdexec.Lib.Paths

/-!
# What the scripts take from Python

Values as `json.loads` returns them, the exceptions that the scripts raise or that come to them, pure
paths, and the files. Floats and everything that prints a value are parameters.
-/

namespace DsaStdexec.Profile

open DsaStdexec.Lib

/-! ## Values -/

inductive Number (F : Type) where
  | int (n : Int)
  | float (x : F)

abbrev Value (F : Type) := Json (Number F)

abbrev Dict (F : Type) := List (String × Value F)

variable {F : Type}

/-- The value of a member; the last one counts. -/
def member? (obj : Dict F) (key : String) : Option (Value F) := obj.reverse.lookup key

/-- `obj.get(key)` -/
def get (obj : Dict F) (key : String) : Value F := (member? obj key).getD .null

inductive PyError where
  | manifest (text : String)
  | summary (text : String)
  | key (key : String)
  /-- Any exception that no script raises itself. -/
  | other (text : String)
  deriving DecidableEq, Repr

/-- `isinstance(value, int)`: a `bool` is an `int`. -/
def asInt : Value F → Option Int
  | .bool b => some (if b then 1 else 0)
  | .number (.int n) => some n
  | _ => none

/-- The interpreter: how it prints a value, and its floats. -/
structure Python (F : Type) where
  repr : Value F → String
  /-- `float(value)` -/
  float : Value F → Except PyError F
  /-- `x == 0` and `x == 1` -/
  isZero : F → Bool
  isOne : F → Bool
  zero : F
  add : F → F → F
  sub : F → F → F
  div : F → F → F

namespace Python

variable (py : Python F)

/-- `value == 1` -/
def eqOne : Value F → Bool
  | .bool b => b
  | .number (.int n) => n == 1
  | .number (.float x) => py.isOne x
  | _ => false

/-- `bool(value)` -/
def truthy : Value F → Bool
  | .null => false
  | .bool b => b
  | .number (.int n) => n != 0
  | .number (.float x) => !py.isZero x
  | .string s => s != ""
  | .array items => !items.isEmpty
  | .object members => !members.isEmpty

def reprStr (s : String) : String := py.repr (.string s)

end Python

/-! ## Paths -/

def segments (raw : String) : List String := (raw.toList.splitOn '/').map String.ofList

/-- A `PurePosixPath`: its root (none, one or two slashes) and its parts. -/
structure PurePath where
  root : String
  parts : List String
  deriving DecidableEq, Repr

namespace PurePath

def ofString (raw : String) : PurePath where
  root :=
    match (raw.toList.takeWhile (· = '/')).length with
    | 0 => ""
    | 2 => "//"
    | _ => "/"
  parts := (segments raw).filter fun s => s != "" && s != "."

def isAbsolute (path : PurePath) : Bool := path.root != ""

/-- `path / other` -/
def join (path other : PurePath) : PurePath :=
  if other.isAbsolute then other else ⟨path.root, path.parts ++ other.parts⟩

def name (path : PurePath) : String := path.parts.getLast?.getD ""

def str (path : PurePath) : String :=
  if path.root = "" ∧ path.parts = [] then "." else path.root ++ "/".intercalate path.parts

end PurePath

/-- One segment of a path, for the system. -/
def stepOf (segment : String) : PathStep String :=
  if segment = "" ∨ segment = "." then .stay else if segment = ".." then .up else .down segment

def steps (raw : String) : List (PathStep String) := (segments raw).map stepOf

/-- Where `directory / raw` leads without links. A directory is the list of its names, the innermost
first. -/
def locate (directory : List String) (raw : String) : List String :=
  if (PurePath.ofString raw).isAbsolute then Path.walk [] (steps raw) else Path.walk directory (steps raw)

/-- What can be a name in a directory. -/
def IsName (name : String) : Prop := stepOf name = .down name ∧ '/' ∉ name.toList

/-! ## Files -/

/-- What comes of reading a file and `json.loads`. -/
inductive Read (F : Type) where
  | value (v : Value F)
  | osError (text : String)
  | decodeError (text : String)
  /-- The file is neither refused by the system nor by the grammar, but the decoder gives up on it:
  it holds an integer with too many digits, or is nested too deeply. -/
  | gaveUp (text : String)

structure Files (F : Type) where
  read : PurePath → Read F
  /-- `path.exists()`. It can raise, as for a name that is too long. -/
  pathExists : PurePath → Except String Bool

end DsaStdexec.Profile
