import PodTarget.Text.Split

/-! The command line, by the usual rules for options. It is read from left to right;
help, the version or the first error ends it. The name of an option comes after two
hyphens, and its value after an equals sign or as the next argument, which must not
look like an option then. Letters may share one hyphen. Behind two hyphens alone all
arguments are plain. An option that takes one value is given once; one that takes
several is repeated. Some options mean the same in front of the name of a command and
behind it: more messages, help and, in front only, the version. -/

namespace PodTarget.Command

open Text

inductive Format
  | starlark
  | json
deriving DecidableEq, Repr

def Format.name : Format → String
  | starlark => "starlark"
  | json => "json"

def Format.ofName? (s : String) : Option Format := [starlark, json].find? (·.name = s)

/-- The target of one podspec, which may depend on more targets of its package. The
options are read from `config`; the result goes to `output`, or else to standard
output. -/
structure Request where
  podspec : String
  subspecs : List String
  deps : List String
  infoPlists : List String
  config : Option String
  output : Option String
  format : Format
  linkDynamic : Bool
  depsPrefix : Option String
  iosPlatform : Option String
deriving DecidableEq, Repr

inductive Invocation
  | generate (request : Request)
  | config
deriving DecidableEq, Repr

inductive Ending
  | version
  | help
  | misuse
deriving DecidableEq, Repr

/-! ### Arguments -/

inductive Word
  | separator
  | long (name : List Char) (value : Option (List Char))
  | short (letters : List Char)
  | plain
deriving DecidableEq, Repr

def wordOf (s : List Char) : Word :=
  match s with
  | ['-', '-'] => .separator
  | '-' :: '-' :: name =>
    match cut? '=' name with
    | some (name, value) => .long name (some value)
    | none => .long name none
  | '-' :: c :: cs => .short (c :: cs)
  | _ => .plain

inductive Key
  | subspec
  | dep
  | infoPlist
  | config
  | output
  | format
  | depsPrefix
  | iosPlatform
deriving DecidableEq, Repr

namespace Key

def name : Key → String
  | subspec => "subspec"
  | dep => "dep"
  | infoPlist => "info-plist"
  | config => "config"
  | output => "output"
  | format => "format"
  | depsPrefix => "deps-prefix"
  | iosPlatform => "ios-platform"

def all : List Key :=
  [subspec, dep, infoPlist, config, output, format, depsPrefix, iosPlatform]

def ofName? (s : List Char) : Option Key := all.find? (·.name.toList = s)

end Key

def letters (top : Bool) : List Char → Except Ending Unit
  | [] => .ok ()
  | c :: cs =>
    if c = 'v' then letters top cs
    else if c = 'h' then .error .help
    else if c = 'V' ∧ top then .error .version
    else .error .misuse

/-- What is not an option of the command itself. -/
def common (top : Bool) : Word → Except Ending Unit
  | .long name none =>
    if name = "verbose".toList then .ok ()
    else if name = "help".toList then .error .help
    else if name = "version".toList ∧ top then .error .version
    else .error .misuse
  | .short cs => letters top cs
  | _ => .error .misuse

/-! ### Requests -/

/-- A request of which a part has been read, whether all arguments that follow are
plain, and the option whose value comes next. -/
structure Draft where
  podspec : Option String
  subspecs : List String
  deps : List String
  infoPlists : List String
  config : Option String
  output : Option String
  format : Option Format
  linkDynamic : Bool
  depsPrefix : Option String
  iosPlatform : Option String
  plainOnly : Bool
  pending : Option Key

namespace Draft

def start : Draft := ⟨none, [], [], [], none, none, none, false, none, none, false, none⟩

def once {α : Type} (old : Option α) (new : α) : Except Ending (Option α) :=
  if old.isSome then .error .misuse else .ok (some new)

def oncePath (old : Option String) (new : String) : Except Ending (Option String) :=
  if new.isEmpty then .error .misuse else once old new

def onceFormat (old : Option Format) (new : String) : Except Ending (Option Format) :=
  match Format.ofName? new with
  | some f => once old f
  | none => .error .misuse

def put (d : Draft) (k : Key) (v : String) : Except Ending Draft :=
  match k with
  | .subspec => .ok { d with subspecs := d.subspecs ++ [v] }
  | .dep => .ok { d with deps := d.deps ++ [v] }
  | .infoPlist => .ok { d with infoPlists := d.infoPlists ++ [v] }
  | .config => (oncePath d.config v).map fun a => { d with config := a }
  | .output => (oncePath d.output v).map fun a => { d with output := a }
  | .format => (onceFormat d.format v).map fun a => { d with format := a }
  | .depsPrefix => (once d.depsPrefix v).map fun a => { d with depsPrefix := a }
  | .iosPlatform => (once d.iosPlatform v).map fun a => { d with iosPlatform := a }

def putPodspec (d : Draft) (path : String) : Except Ending Draft :=
  (oncePath d.podspec path).map fun a => { d with podspec := a }

def putWord (d : Draft) (a : String) : Word → Except Ending Draft
  | .separator => .ok { d with plainOnly := true }
  | .plain => d.putPodspec a
  | .long name value =>
    match Key.ofName? name, value with
    | some k, some v => d.put k (.ofList v)
    | some k, none => .ok { d with pending := some k }
    | none, _ =>
      if name = "link-dynamic".toList ∧ value.isNone then
        if d.linkDynamic then .error .misuse else .ok { d with linkDynamic := true }
      else (common false (.long name value)).map fun _ => d
  | w => (common false w).map fun _ => d

def read (d : Draft) (a : String) : Except Ending Draft :=
  match d.pending with
  | some k =>
    if wordOf a.toList = .plain then { d with pending := none }.put k a else .error .misuse
  | none => if d.plainOnly then d.putPodspec a else d.putWord a (wordOf a.toList)

def finish (d : Draft) : Except Ending Invocation :=
  match d.podspec, d.pending with
  | some podspec, none =>
    .ok <| .generate
      { podspec
        subspecs := d.subspecs
        deps := d.deps
        infoPlists := d.infoPlists
        config := d.config
        output := d.output
        format := d.format.getD .starlark
        linkDynamic := d.linkDynamic
        depsPrefix := d.depsPrefix
        iosPlatform := d.iosPlatform }
  | _, _ => .error .misuse

end Draft

/-! ### Commands -/

/-- Reads an argument of a command that takes none. -/
def readNothing (plainOnly : Bool) (a : String) : Except Ending Bool :=
  match wordOf a.toList with
  | .separator => if plainOnly then .error .misuse else .ok true
  | w => if plainOnly then .error .misuse else (common false w).map fun _ => false

def readHelp : List String → Ending
  | [] | ["generate"] | ["config"] | ["help"] => .help
  | _ => .misuse

def command (name : String) (arguments : List String) : Except Ending Invocation :=
  if name = "generate" then arguments.foldlM Draft.read Draft.start >>= Draft.finish
  else if name = "config" then (arguments.foldlM readNothing false).map fun _ => .config
  else if name = "help" then .error (readHelp arguments)
  else .error .misuse

/-- A command line, without the name of the program. -/
def ofArguments : List String → Except Ending Invocation
  | [] => .error .misuse
  | a :: rest =>
    match wordOf a.toList with
    | .plain => command a rest
    | w => common true w >>= fun _ => ofArguments rest

end PodTarget.Command
