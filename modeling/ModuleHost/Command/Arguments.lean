import ModuleHost.Files.Path

/-!
Reading the command line. Options stand in front of a command or behind its name, and what stands
behind a double dash is never an option. Reading stops at the first thing that cannot be right, or
that asks for help or for the version.
-/

namespace ModuleHost.Command

open ModuleHost.Files

inductive Kind where
  | flag
  | counter
  | text
  | path
  | help
  | version
  deriving DecidableEq, Repr

def Kind.takesValue : Kind → Bool
  | .text | .path => true
  | .flag | .counter | .help | .version => false

structure Spec where
  name : String
  short : Option Char := none
  kind : Kind
  value : String := ""
  about : String
  deriving DecidableEq, Repr

structure Positional where
  name : String
  isRequired : Bool
  about : String
  deriving DecidableEq, Repr

/-- What may stand on the command line, before or behind the name of a command. -/
structure Level where
  name : String := ""
  about : String
  specs : List Spec
  positionals : List Positional := []
  requiredOptions : List String := []
  deriving DecidableEq, Repr

def helpSpec : Spec := { name := "help", short := 'h', kind := .help, about := "Print help" }

def versionSpec : Spec :=
  { name := "version", short := 'V', kind := .version, about := "Print version" }

def verboseSpec : Spec :=
  { name := "verbose", short := 'v', kind := .counter
    about := "Increase logging verbosity (-v for DEBUG, -vv for TRACE)" }

def jsonSpec : Spec :=
  { name := "json", kind := .flag, about := "Emit JSON formatted output (stable, machine-readable)" }

def configSpec : Spec :=
  { name := "config", kind := .path, value := "PATH"
    about := "Transform config file (JSON); defaults apply to missing fields" }

def modulePathSpec : Spec :=
  { name := "module-path", kind := .text, value := "URL"
    about := "Module path baked into the wrapper (default: \"/\" + path relative to cwd)" }

def outSpec : Spec :=
  { name := "out", short := 'o', kind := .path, value := "FILE"
    about := "Write the result here instead of stdout" }

def outDirSpec : Spec :=
  { name := "out-dir", kind := .path, value := "DIR"
    about := "Directory receiving the transformed modules" }

namespace Level

def top : Level :=
  { about := "Rewrites ES modules for script hosts without a module linker"
    specs := [verboseSpec, jsonSpec, configSpec, helpSpec, versionSpec] }

def version : Level :=
  { name := "version", about := "Print version information"
    specs := [verboseSpec, jsonSpec, configSpec, helpSpec] }

def transform : Level :=
  { name := "transform", about := "Transform one module into a host wrapper"
    specs := [modulePathSpec, verboseSpec, jsonSpec, outSpec, configSpec, helpSpec]
    positionals := [⟨"FILE", true, "Source file to transform"⟩] }

def watch : Level :=
  { name := "watch", about := "Transform a source tree and keep it in sync"
    specs := [outDirSpec, verboseSpec, jsonSpec, configSpec, helpSpec]
    positionals := [⟨"ROOT", true, "Source root to watch"⟩]
    requiredOptions := ["out-dir"] }

def decode : Level :=
  { name := "decode-hmr", about := "Decode a dev-server HMR message and print the host action"
    specs := [verboseSpec, jsonSpec, configSpec, helpSpec]
    positionals := [⟨"FILE", false, "File holding one JSON message (default: stdin)"⟩] }

def help : Level :=
  { name := "help", about := "Print this message or the help of the given subcommand(s)", specs := [] }

def commands : List Level :=
  [version, transform, watch, decode, help]

def command? (name : String) : Option Level :=
  commands.find? (·.name = name)

def long? (l : Level) (name : String) : Option Spec :=
  l.specs.find? (·.name = name)

def short? (l : Level) (c : Char) : Option Spec :=
  l.specs.find? (·.short = some c)

end Level

inductive UsageFault where
  | unexpected (argument : String)
  | unknownCommand (name : String)
  | valueExpected (option : String)
  | valueNotExpected (option : String)
  | repeated (option : String)
  | missing (name : String)
  deriving DecidableEq, Repr

def UsageFault.message : UsageFault → String
  | .unexpected argument => "unexpected argument '" ++ argument ++ "' found"
  | .unknownCommand name => "unrecognized subcommand '" ++ name ++ "'"
  | .valueExpected option => "a value is required for '" ++ option ++ "' but none was supplied"
  | .valueNotExpected option => "unexpected value for '--" ++ option ++ "' found; no more were expected"
  | .repeated option => "the argument '--" ++ option ++ "' cannot be used multiple times"
  | .missing name => "the following required arguments were not provided: " ++ name

/-- Why the command line is not read any further. -/
inductive Stop where
  | usage (fault : UsageFault)
  | help (level : Level)
  | version
  deriving DecidableEq, Repr

structure Found where
  flags : List String := []
  values : List (String × String) := []
  positionals : List String := []
  pending : Option Spec := none
  literal : Bool := false

namespace Found

def value? (f : Found) (name : String) : Option String :=
  (f.values.find? (·.1 = name)).map Prod.snd

def setValue (f : Found) (spec : Spec) (value : String) : Except Stop Found := do
  if (f.value? spec.name).isSome then throw (.usage (.repeated spec.name))
  if spec.kind = .path && value = "" then throw (.usage (.valueExpected spec.name))
  return { f with values := f.values ++ [(spec.name, value)], pending := none }

def setFlag (f : Found) (level : Level) (spec : Spec) : Except Stop Found :=
  match spec.kind with
  | .flag =>
    if f.flags.contains spec.name then throw (.usage (.repeated spec.name))
    else return { f with flags := f.flags ++ [spec.name] }
  | .counter => return { f with flags := f.flags ++ [spec.name] }
  | .text | .path => return { f with pending := some spec }
  | .help => throw (.help level)
  | .version => throw .version

def readLong (f : Found) (level : Level) (argument : String) (body : List Char) :
    Except Stop Found :=
  let (name, behind) := body.span (· ≠ '=')
  match level.long? (String.ofList name), behind with
  | none, _ => throw (.usage (.unexpected argument))
  | some spec, [] => f.setFlag level spec
  | some spec, _ :: value =>
    if spec.kind.takesValue then f.setValue spec (String.ofList value)
    else throw (.usage (.valueNotExpected spec.name))

/-- Options by their letters; what follows one that takes a value is its value. -/
def readShorts (f : Found) (level : Level) (argument : String) : List Char → Except Stop Found
  | [] => return f
  | c :: rest =>
    match level.short? c with
    | none => throw (.usage (.unexpected argument))
    | some spec =>
      if spec.kind.takesValue then
        match rest with
        | [] => f.setFlag level spec
        | '=' :: value => f.setValue spec (String.ofList value)
        | value => f.setValue spec (String.ofList value)
      else do (← f.setFlag level spec).readShorts level argument rest

def readPositional (f : Found) (level : Level) (argument : String) : Except Stop Found := do
  if f.positionals.length < level.positionals.length then
    if argument = "" then throw (.usage (.valueExpected "FILE"))
    return { f with positionals := f.positionals ++ [argument] }
  if level.name = "" then throw (.usage (.unknownCommand argument))
  throw (.usage (.unexpected argument))

def read (f : Found) (level : Level) (argument : String) : Except Stop Found :=
  let option (take : Except Stop Found) : Except Stop Found :=
    match f.pending with
    | some spec => throw (.usage (.valueExpected spec.name))
    | none => take
  if f.literal then option (f.readPositional level argument)
  else
    match argument.toList with
    | ['-', '-'] => return { f with literal := true }
    | '-' :: '-' :: body => option (f.readLong level argument body)
    | '-' :: c :: letters => option (f.readShorts level argument (c :: letters))
    | _ =>
      match f.pending with
      | some spec => f.setValue spec argument
      | none => f.readPositional level argument

def finish (f : Found) (level : Level) : Except Stop Found := do
  if let some spec := f.pending then throw (.usage (.valueExpected spec.name))
  if let some p := (level.positionals.drop f.positionals.length).find? (·.isRequired) then
    throw (.usage (.missing p.name))
  if let some name := level.requiredOptions.find? fun name => (f.value? name).isNone then
    throw (.usage (.missing name))
  return f

def readAll (level : Level) : Found → List String → Except Stop Found
  | f, [] => f.finish level
  | f, argument :: rest => do readAll level (← f.read level argument) rest

def readTop : Found → List String → Except Stop (Found × Option (String × List String))
  | f, [] => return (← f.finish .top, none)
  | f, argument :: rest =>
    if !f.literal && f.pending.isNone && (Level.command? argument).isSome then
      return (f, some (argument, rest))
    else do readTop (← f.read .top argument) rest

end Found

inductive Task where
  | version
  | transform (file : Path) (modulePath : Option String) (out : Option Path)
  | watch (root outDir : Path)
  | decode (file : Option Path)
  deriving DecidableEq, Repr

structure Invocation where
  json : Bool
  config : Option Path
  task : Task
  deriving DecidableEq, Repr

def readHelp : List String → Stop
  | [] => .help .top
  | [name] =>
    match Level.command? name with
    | some level => .help level
    | none => .usage (.unknownCommand name)
  | _ :: name :: _ => .usage (.unknownCommand name)

def taskOf (name : String) (f : Found) : Task :=
  let path (n : Nat) : Path := .ofText ((f.positionals[n]?).getD "")
  if name = "transform" then
    .transform (path 0) (f.value? "module-path") ((f.value? "out").map Path.ofText)
  else if name = "watch" then .watch (path 0) (.ofText ((f.value? "out-dir").getD ""))
  else if name = "decode-hmr" then .decode (f.positionals.head?.map Path.ofText)
  else .version

/-- The configuration file: the innermost one that is named, or else the one that the surroundings
name, which must not be empty where none is. -/
def configOf (surroundings : Option String) (levels : List Found) : Except Stop (Option Path) := do
  let named := levels.map (·.value? "config")
  if surroundings = some "" && named.contains none then
    throw (.usage (.valueExpected "config"))
  return ((named.filterMap id).getLast?.or surroundings).map Path.ofText

def Invocation.parse (surroundings : Option String) (arguments : List String) :
    Except Stop Invocation := do
  let (top, command) ← Found.readTop {} arguments
  match command with
  | none =>
    let config ← configOf surroundings [top]
    return { json := top.flags.contains "json", config, task := .version }
  | some (name, rest) =>
    if name = "help" then throw (readHelp rest)
    let found ← Found.readAll ((Level.command? name).getD .version) {} rest
    let config ← configOf surroundings [top, found]
    let json := top.flags.contains "json" || found.flags.contains "json"
    return { json, config, task := taskOf name found }

end ModuleHost.Command
