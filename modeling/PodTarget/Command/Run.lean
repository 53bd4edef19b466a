import PodTarget.Command.Access
import PodTarget.Command.Line
import PodTarget.Options.Schema
import PodTarget.Podspec.Schema
import PodTarget.Podspec.Subspecs
import PodTarget.Target.BuildFile
import PodTarget.Target.Record

/-! What commands do. The options are read first, then the podspec; nothing is
written unless there is a target. What comes of it goes to standard output, unless a
path is given for it. An error of the system is told on its own and once more as the
cause; a command line that cannot be read ends with the usage of the program. -/

namespace PodTarget.Command

inductive LoadError (ε : Type)
  | absent
  | unreadable (cause : SystemError)
  | malformed (cause : ε)
deriving DecidableEq, Repr

inductive Failure
  | options (path : String) (cause : LoadError Toml.Error)
  | podspec (path : String) (cause : LoadError Json.Error)
  | unknownSubspec (pod requested : String)
  | creating (path : String) (cause : SystemError)
  | writing (path : String) (cause : SystemError)
deriving DecidableEq, Repr

def LoadError.message {ε : Type} (what path format : String) (text : ε → String) :
    LoadError ε → String
  | absent => what ++ " not found: " ++ path
  | unreadable e => "I/O error: " ++ e.message ++ ": " ++ e.message
  | malformed e => format ++ " error: " ++ text e

def Failure.message : Failure → String
  | options path e =>
    "loading build options from " ++ path ++ ": " ++
      e.message "options file" path "TOML parse" Toml.Error.message
  | podspec path e =>
    "loading podspec " ++ path ++ ": " ++ e.message "podspec" path "JSON" Json.Error.message
  | unknownSubspec pod requested => pod ++ " has no subspec named '" ++ requested ++ "'"
  | creating path e => "creating " ++ path ++ ": " ++ e.message
  | writing path e => "writing " ++ path ++ ": " ++ e.message

/-- The first subspec that is requested but not there. -/
def firstUnknown? (spec : Podspec) (sep : Text.Separator) (requested : List String) :
    Option String :=
  requested.find? fun r => (spec.flatten.map (·.1)).all (· ≠ pathOf spec.name sep r)

namespace Request

def adjust (r : Request) (o : Options) : Options :=
  { o with
    linkDynamic := o.linkDynamic || r.linkDynamic
    depsPrefix := r.depsPrefix.getD o.depsPrefix
    iosPlatform := r.iosPlatform.getD o.iosPlatform }

def target (r : Request) (spec : Podspec) (o : Options) : FrameworkTarget :=
  r.infoPlists.foldl FrameworkTarget.addInfoPlist <|
    .assemble (.ofOptions o) spec.declaration (spec.select r.subspecs o.separator)
      (.ofList r.deps)

def text (r : Request) (spec : Podspec) (o : Options) : Except Failure String :=
  match firstUnknown? spec o.separator r.subspecs with
  | some name => .error (.unknownSubspec spec.name name)
  | none =>
    match r.format with
    | .starlark => .ok (r.target spec o).buildFile.render
    | .json => .ok (r.target spec o).record

end Request

variable {m : Type → Type} [Monad m]

def load {ε α : Type} (fs : FileAccess m) (decode : String → Except ε α) (path : String) :
    m (Except (LoadError ε) α) := do
  match ← fs.read path with
  | .ok content =>
    match decode content with
    | .ok a => return .ok a
    | .error e => return .error (.malformed e)
  | .error e => return .error (if e.isAbsence then .absent else .unreadable e)

def loadOptions (fs : FileAccess m) : Option String → ExceptT Failure m Options
  | none => return .default
  | some path => ExceptT.mk do
    match ← load fs Options.ofToml path with
    | .ok o => return .ok o
    | .error e => return .error (.options path e)

def loadPodspec (fs : FileAccess m) (path : String) : ExceptT Failure m Podspec := ExceptT.mk do
  match ← load fs Podspec.ofJson path with
  | .ok s => return .ok s
  | .error e => return .error (.podspec path e)

/-- Writes a result, making the directories around the path. -/
def writeOut (fs : FileAccess m) (text : String) : Option String → ExceptT Failure m String
  | none => return text
  | some path => ExceptT.mk do
    let around := directoriesOf path
    match ← fs.ensureAll around with
    | .error e => return .error (.creating (around.headD "") e)
    | .ok () =>
      match ← fs.write path text with
      | .error e => return .error (.writing path e)
      | .ok () => return .ok ""

def run (fs : FileAccess m) : Invocation → ExceptT Failure m String
  | .config => return Options.default.toToml
  | .generate r => do
    let o ← loadOptions fs r.config
    let spec ← loadPodspec fs r.podspec
    let text ← ExceptT.mk (pure (r.text spec (r.adjust o)))
    writeOut fs text r.output

structure Outcome where
  exit : Nat
  output : String
  error : String
deriving DecidableEq, Repr

def version : String := "podbuild 0.1.0"

def usage : String :=
  "Generate Bazel BUILD files from podspecs\n\n" ++
    "Usage: podbuild [OPTIONS] <COMMAND>\n\n" ++
    "Commands:\n" ++
    "  generate  Generate the apple_framework target for a podspec\n" ++
    "  config    Print the default build options as TOML\n" ++
    "  help      Print this message\n"

def runProgram (fs : FileAccess m) (arguments : List String) : m Outcome := do
  match ofArguments arguments with
  | .error .version => return ⟨0, version ++ "\n", ""⟩
  | .error .help => return ⟨0, usage, ""⟩
  | .error .misuse => return ⟨2, "", usage⟩
  | .ok i =>
    match ← (run fs i).run with
    | .ok text => return ⟨0, text, ""⟩
    | .error e => return ⟨1, "", "error: " ++ e.message ++ "\n"⟩

end PodTarget.Command
