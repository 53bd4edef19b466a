import PodTarget.Command.Access

/-! Files and directories as a value, on which commands can be run without a
system. A place is given by the names from the root, and relative paths start at the
current one. A sink is a device that is empty, whatever is written to it. -/

namespace PodTarget.Command

inductive Entry
  | file (content : String)
  | directory (members : List (String × Entry))
  | sink

def putMember (n : String) (e : Entry) : List (String × Entry) → List (String × Entry)
  | [] => [(n, e)]
  | (m, f) :: ms => if m = n then (n, e) :: ms else (m, f) :: putMember n e ms

namespace Entry

/-- Puts an entry at a place in another. Only in a directory there is something
to be put. -/
def put (x : Entry) : List String → Entry → Entry
  | [], _ => x
  | n :: ns, directory ms =>
    directory (putMember n (put x ns ((ms.lookup n).getD (directory []))) ms)
  | _ :: _, e => e

end Entry

structure Disk where
  root : Entry
  current : List String

namespace Disk

def longestName : Nat := 255

def longestPath : Nat := 4095

/-- The names that have led to a place, the last one first, with what is there
under each of them. -/
abbrev Trail := List (String × Option Entry)

def Trail.place (trail : Trail) : List String := (trail.map (·.1)).reverse

def look (d : Disk) : Trail → Except SystemError (Option Entry)
  | [] => .ok (some d.root)
  | (n, e) :: _ => if n.utf8ByteSize ≤ longestName then .ok e else .error .nameTooLong

/-- Goes through names one by one, each in the directory that the one before has
led to. -/
def walk (d : Disk) : List String → Trail → Except SystemError Trail
  | [], trail => .ok trail
  | n :: ns, trail =>
    match d.look trail with
    | .error e => .error e
    | .ok none => .error .noEntry
    | .ok (some (.directory members)) =>
      if n = "." then d.walk ns trail
      else if n = ".." then d.walk ns trail.tail
      else d.walk ns ((n, members.lookup n) :: trail)
    | .ok (some _) => .error .notDirectory

def names (path : String) : List String :=
  ((path.toList.splitOnP (· = '/')).filter (· ≠ [])).map .ofList

def endsOpen (path : String) : Bool := path.toList.getLast? = some '/'

def trail (d : Disk) (path : String) : Except SystemError Trail :=
  if path.utf8ByteSize ≤ longestPath then
    d.walk ((if path.toList.head? = some '/' then [] else d.current) ++ names path) []
  else .error .nameTooLong

/-- What is at a path. With a slash at the end it has to be a directory. -/
def find (d : Disk) (path : String) : Except SystemError Entry :=
  match d.trail path >>= d.look with
  | .error e => .error e
  | .ok none => .error .noEntry
  | .ok (some (.directory ms)) => .ok (.directory ms)
  | .ok (some e) => if endsOpen path then .error .notDirectory else .ok e

def read (d : Disk) (path : String) : Except SystemError String :=
  match d.find path with
  | .ok (.file c) => .ok c
  | .ok .sink => .ok ""
  | .ok (.directory _) => .error .isDirectory
  | .error e => .error e

def isDirectory (d : Disk) (path : String) : Bool :=
  match d.find path with
  | .ok (.directory _) => true
  | _ => false

def put (d : Disk) (trail : Trail) (e : Entry) : Disk :=
  { d with root := e.put trail.place d.root }

def makeDirectory (d : Disk) (path : String) : Except SystemError Disk :=
  match d.trail path with
  | .error e => .error e
  | .ok trail =>
    match d.look trail with
    | .error e => .error e
    | .ok (some _) => .error .entryExists
    | .ok none => .ok (d.put trail (.directory []))

/-- Writes a file, which is made if it is not there. A path with a slash at the
end names no file. -/
def write (d : Disk) (path content : String) : Except SystemError Disk :=
  match d.trail path with
  | .error e => .error e
  | .ok trail =>
    if endsOpen path then .error .isDirectory
    else
      match d.look trail with
      | .error e => .error e
      | .ok (some (.directory _)) => .error .isDirectory
      | .ok (some .sink) => .ok d
      | .ok _ => .ok (d.put trail (.file content))

def change (f : Disk → Except SystemError Disk) : StateM Disk (Except SystemError Unit) := do
  match f (← get) with
  | .ok d =>
    set d
    return .ok ()
  | .error e => return .error e

def access : FileAccess (StateM Disk) where
  read path := return (← get).read path
  write path content := change (·.write path content)
  makeDirectory path := change (·.makeDirectory path)
  isDirectory path := return (← get).isDirectory path

/-- The directories at the root of a Linux system besides those of devices and of
temporary files. -/
def systemDirectories : List String :=
  ["bin", "boot", "etc", "home", "lib", "media", "mnt", "opt", "proc", "root", "run", "sbin", "srv",
   "sys", "usr", "var"]

/-- An empty directory among the temporary files of a system. It has the empty
name, so that no path leads to it from the root. -/
def empty : Disk where
  root := .directory <|
    [("dev", .directory [("null", .sink)]), ("tmp", .directory [("", .directory [])])] ++
      systemDirectories.map (·, .directory [])
  current := ["tmp", ""]

/-- The files at relative paths in a directory that is empty otherwise. -/
def ofFiles (files : List (String × String)) : Disk :=
  let run : StateM Disk Unit := files.forM fun (path, content) => do
    discard (access.ensureAll (directoriesOf path))
    discard (access.write path content)
  (run empty).2

end Disk

end PodTarget.Command
