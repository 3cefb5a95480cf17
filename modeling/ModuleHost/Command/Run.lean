import ModuleHost.Command.Help
import ModuleHost.ConfigFile
import ModuleHost.Hot.MessageText
import ModuleHost.Version
import ModuleHost.Watch.Outputs
import ModuleHost.Wrap.Report

/-!
What the commands do. Each is a decision about what has been read, so that the same decisions serve a
tree of files in memory and the files of a machine. A plan either is finished or writes one file
first; `execute` follows a whole command line in a tree.
-/

namespace ModuleHost.Command

open ModuleHost.Files ModuleHost.Json ModuleHost.Wrap

/-- How a command ends: its exit code, what it prints, and the lines it prints as findings. -/
structure Result where
  exit : Nat := 0
  out : String := ""
  findings : List String := []
  deriving DecidableEq, Repr

def Result.failure (reason : String) : Result :=
  { exit := 1, findings := ["Error: " ++ reason] }

inductive Plan where
  | finish (result : Result)
  | write (path : Path) (code : String) (done : Result) (failed : String → Result)

def Stop.result (surroundings : Option String) : Stop → Result
  | .usage fault => { exit := 2, findings := ["error: " ++ fault.message] }
  | .help level => { out := level.helpText surroundings }
  | .version => { out := versionText ++ "\n" }

def field? (key : String) (v : Option Value) : List (String × Value) :=
  (v.map fun v => (key, v)).toList

def jsonText (entries : List (String × Value)) : String :=
  (Value.object entries).printLines 0 ++ "\n"

def transformed (json : Bool) (modulePath : String) (out : Option Path) (o : Output) : Result :=
  let code := if out.isNone then some o.code else none
  if json then
    { out := jsonText <|
        [("ok", .bool true), ("module_path", .string modulePath)] ++
          field? "code" (code.map .string) ++ field? "out" (out.map fun p => .string p.text) ++
          [("diagnostics", .array (o.diagnostics.map Diagnostic.toValue))] }
  else
    { out := code.getD ""
      findings := o.diagnostics.map fun d => "warning[" ++ d.code ++ "]: " ++ d.message }

def notTransformed (json : Bool) (modulePath : String) (e : TransformError) : Result :=
  if json then
    { exit := 1
      out := jsonText
        [("ok", .bool false), ("module_path", .string modulePath), ("diagnostics", .array []),
          ("error", e.toValue)] }
  else { exit := 1, findings := ["error[" ++ e.code ++ "]: " ++ e.message] }

def transformSource (json : Bool) (config : Config) (modulePath source : String)
    (out : Option Path) : Plan :=
  match (transform config source modulePath).1 with
  | .error e => .finish (notTransformed json modulePath e)
  | .ok o =>
    let done := transformed json modulePath out o
    match out with
    | none => .finish done
    | some path =>
      .write path o.code done fun reason => .failure ("writing " ++ path.text ++ ": " ++ reason)

def describe : Option Hot.HostEvent → List String
  | some (.update paths) => paths.map ("update " ++ ·)
  | some (.prune paths) => paths.map ("prune " ++ ·)
  | some .fullReload => ["full-reload"]
  | none => ["none"]

def decodeText (json : Bool) (text : String) : Result :=
  match Hot.Message.parse text with
  | .error fault =>
    let reason := Hot.Message.refusal text fault
    if json then
      { exit := 1, out := jsonText [("ok", .bool false), ("error", .string reason)] }
    else .failure reason
  | .ok m =>
    let event := m.hostEvent?
    if json then
      { out := jsonText ([("ok", .bool true)] ++ field? "event" (event.map Hot.HostEvent.toValue)) }
    else { out := String.join ((describe event).map (· ++ "\n")) }

def configFrom (path : Option Path) (read : Path → Except String String) :
    Except String Config :=
  match path with
  | none => .ok {}
  | some path =>
    match Config.load path.text (read path) with
    | .ok c => .ok c
    | .error fault => .error ("loading transform config: " ++ fault.message)

def Invocation.inputs (i : Invocation) : List Path :=
  i.config.toList ++
    match i.task with
    | .transform file _ _ => [file]
    | .decode file => file.toList
    | .version | .watch .. => []

structure Surroundings where
  directory : Path
  read : Path → Except String String
  readLossy : Path → Except String String
  isDirectory : Path → Bool
  input : Except String String

def notDirectory (root : Path) : Result :=
  .failure ("watch root is not a directory: " ++ root.text)

/-- What an invocation comes to; only a watch that has a directory to watch goes on. -/
def Invocation.plan (i : Invocation) (s : Surroundings) : Plan :=
  match i.task with
  | .version => .finish { out := versionText ++ "\n" }
  | .decode file =>
    let text := match file with
      | none => s.input
      | some path => s.read path
    match text with
    | .ok text => .finish (decodeText i.json text)
    | .error reason => .finish (.failure ("reading: " ++ reason))
  | .transform file modulePath out =>
    match configFrom i.config s.read, s.readLossy file with
    | .error reason, _ => .finish (.failure reason)
    | .ok _, .error reason => .finish (.failure ("reading " ++ file.text ++ ": " ++ reason))
    | .ok config, .ok source =>
      let modulePath := modulePath.getD (defaultModulePath file s.directory)
      transformSource i.json config modulePath source out
  | .watch root _ =>
    match configFrom i.config s.read with
    | .error reason => .finish (.failure reason)
    | .ok _ => .finish (if s.isDirectory root then {} else notDirectory root)

def Surroundings.ofTree (t : Tree) (input : Except String String) : Surroundings :=
  { directory := .ofParts [""] t.workingDirectory
    read := fun p => (t.readText p).mapError Fault.message
    readLossy := fun p => (t.readLossy p).mapError Fault.message
    isDirectory := t.isDirectory
    input }

def Plan.execute (t : Tree) : Plan → Result × Tree
  | .finish result => (result, t)
  | .write path code done failed =>
    match t.write path code.toUTF8.toList with
    | .ok t => (done, t)
    | .error fault => (failed fault.message, t)

def execute (t : Tree) (configPath : Option String) (input : Except String String)
    (arguments : List String) : Result × Tree :=
  match Invocation.parse configPath arguments with
  | .error stop => (stop.result configPath, t)
  | .ok i => (i.plan (.ofTree t input)).execute t

end ModuleHost.Command
