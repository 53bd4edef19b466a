import PodTarget.Text.Split

/-! Access to files, of whatever kind they are, and what may go wrong with it. -/

namespace PodTarget.Command

open Text

inductive SystemError
  | noEntry
  | entryExists
  | notDirectory
  | isDirectory
  | nameTooLong
  | other (code : Nat) (description : String)
deriving DecidableEq, Repr

namespace SystemError

def code : SystemError → Nat
  | noEntry => 2
  | entryExists => 17
  | notDirectory => 20
  | isDirectory => 21
  | nameTooLong => 36
  | other n _ => n

def description : SystemError → String
  | noEntry => "No such file or directory"
  | entryExists => "File exists"
  | notDirectory => "Not a directory"
  | isDirectory => "Is a directory"
  | nameTooLong => "File name too long"
  | other _ d => d

def message (e : SystemError) : String :=
  e.description ++ " (os error " ++ toString e.code ++ ")"

/-- Whether an error in reading says that there cannot be anything to read. -/
def isAbsence : SystemError → Bool
  | noEntry | notDirectory | nameTooLong => true
  | _ => false

end SystemError

structure FileAccess (m : Type → Type) where
  read : String → m (Except SystemError String)
  write : String → String → m (Except SystemError Unit)
  makeDirectory : String → m (Except SystemError Unit)
  isDirectory : String → m Bool

/-- Empty components and dots mean nothing, but the first component tells where
a path starts. Given the components in reverse, the path and those around it,
the innermost first. -/
def enclosing : List (List Char) → List (List Char)
  | [] => []
  | [c] => if c = [] then [['/']] else [c]
  | c :: d :: cs =>
    if c = [] ∨ c = ['.'] then enclosing (d :: cs)
    else join ['/'] (c :: d :: cs).reverse :: enclosing (d :: cs)

def directoriesOf (path : String) : List String :=
  ((enclosing (path.toList.splitOnP (· = '/')).reverse).tail).map .ofList

namespace FileAccess

variable {m : Type → Type} [Monad m]

def ensure (fs : FileAccess m) (path : String) : m (Except SystemError Unit) := do
  match ← fs.makeDirectory path with
  | .ok () => return .ok ()
  | .error e => if ← fs.isDirectory path then return .ok () else return .error e

/-- Makes a directory, given the path and those around it. Those are made where
they are missing. -/
def ensureAll (fs : FileAccess m) : List String → m (Except SystemError Unit)
  | [] => return .ok ()
  | path :: around => do
    match ← fs.makeDirectory path with
    | .ok () => return .ok ()
    | .error .noEntry =>
      match ← fs.ensureAll around with
      | .ok () => fs.ensure path
      | .error e => return .error e
    | .error e => if ← fs.isDirectory path then return .ok () else return .error e

end FileAccess

end PodTarget.Command
