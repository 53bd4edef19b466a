import PodTarget.Command.Run

/-! The program, on the files of the system. -/

namespace PodTarget.Command

/-- The number of an error, whichever sign it is given with. -/
def numberOf (code : UInt32) : Nat :=
  if code.toNat < Nat.pow 2 31 then code.toNat else Nat.pow 2 32 - code.toNat

def ofNumber (code : UInt32) (description : String) : SystemError :=
  match numberOf code with
  | 2 => .noEntry
  | 17 => .entryExists
  | 20 => .notDirectory
  | 21 => .isDirectory
  | 36 => .nameTooLong
  | n => .other n description

def ofError : IO.Error → SystemError
  | .alreadyExists _ c d | .otherError c d | .resourceBusy c d | .resourceVanished c d
  | .unsupportedOperation c d | .hardwareFault c d | .unsatisfiedConstraints c d
  | .illegalOperation c d | .protocolError c d | .timeExpired c d | .interrupted _ c d
  | .noFileOrDirectory _ c d | .invalidArgument _ c d | .permissionDenied _ c d
  | .resourceExhausted _ c d | .inappropriateType _ c d | .noSuchThing _ c d => ofNumber c d
  | e => .other 0 e.toString

def guarded {α : Type} (action : IO α) : IO (Except SystemError α) := do
  match ← EIO.toBaseIO action with
  | .ok a => return .ok a
  | .error e => return .error (ofError e)

/-- A directory can be read but not as a file. -/
def systemAccess : FileAccess IO where
  read path := guarded (IO.FS.readFile path)
  write path content := guarded (IO.FS.writeFile path content)
  makeDirectory path := guarded (IO.FS.createDir path)
  isDirectory path := do
    match ← guarded (IO.FS.readFile path) with
    | .error .isDirectory => return true
    | _ => return false

end PodTarget.Command

open PodTarget.Command

def main (arguments : List String) : IO UInt32 := do
  let outcome ← runProgram systemAccess arguments
  IO.print outcome.output
  IO.eprint outcome.error
  return outcome.exit.toUInt32
