import ModuleHost.Command.Run

/-!
The program: it reads what a command line names, follows the plan that comes of it, and prints how it
ended. A watch that has a directory goes on and looks at its files again and again.
-/

namespace ModuleHost.Main

open ModuleHost.Command ModuleHost.Files ModuleHost.Watch

def readBytes (p : Path) : IO (Except String (List UInt8)) := do
  try
    return .ok (← IO.FS.readBinFile p.text).toList
  catch e => return .error (toString e)

def textOf (bytes : List UInt8) : Except String String :=
  match Text.Utf8.decode? bytes with
  | some text => .ok text
  | none => .error Fault.notText.message

/-- Puts a text in the place of a file in one step; the directories that it lies in are made. -/
def writeText (p : Path) (text : String) : IO Unit := do
  if let some parent := p.parent? then
    if parent.text ≠ "" then IO.FS.createDirAll parent.text
  let staged := p.text ++ ".staged"
  IO.FS.writeFile staged text
  IO.FS.rename staged p.text

def isDirectory (p : Path) : IO Bool := do
  try
    (← IO.FS.realPath p.text).isDir
  catch _ => return false

def gather (i : Invocation) : IO Surroundings := do
  let contents ← i.inputs.mapM fun p => return (p, ← readBytes p)
  let bytes (p : Path) : Except String (List UInt8) :=
    ((contents.find? (·.1 = p)).map Prod.snd).getD (.error Fault.notFound.message)
  let input ←
    match i.task with
    | .decode none => pure (textOf (← (← IO.getStdin).readBinToEnd).toList)
    | _ => pure (.ok "")
  let isRoot ←
    match i.task with
    | .watch root _ => isDirectory root
    | _ => pure false
  let directory ← IO.currentDir
  return {
    directory := .ofText (toString directory)
    read := fun p => (bytes p).bind textOf
    readLossy := fun p => (bytes p).map Text.Utf8.decodeLossy
    isDirectory := fun _ => isRoot
    input }

def print (r : Result) : IO UInt32 := do
  IO.print r.out
  for line in r.findings do IO.eprintln line
  return r.exit.toUInt32

def follow : Plan → IO UInt32
  | .finish result => print result
  | .write path code done failed => do
    try
      writeText path code
      print done
    catch e => print (failed (toString e))

def make (change : Change) : IO Unit := do
  try
    match change with
    | .write out code => writeText out code
    | .remove out => IO.FS.removeFile out.text
  catch e => IO.eprintln (toString e)

def tell (json : Bool) (report : Report) : IO Unit :=
  if json then IO.println report.toValue.print
  else
    match report with
    | .update modulePath _ _ => IO.eprintln ("update " ++ modulePath)
    | .prune modulePath => IO.eprintln ("prune " ++ modulePath)
    | .error _ cause => IO.eprintln cause.message

/-- Brings the output for one file in line. -/
def sync (json : Bool) (o : Outputs) (file : Path) (isThere : Bool) : IO Outputs := do
  let source : Source ←
    if isThere then
      match ← readBytes file with
      | .ok bytes => pure (.text (Text.Utf8.decodeLossy bytes))
      | .error _ => pure .unreadable
    else pure .missing
  let outExists ←
    match o.outputPath? file with
    | some out => Except.isOk <$> readBytes out
    | none => pure false
  let (o, step) := o.step file source outExists
  if let some (report, change) := step then
    if let some change := change then make change
    tell json report
  return o

abbrev Seen := List (String × IO.FS.SystemTime)

def look (root : String) : IO Seen := do
  let entries ← (← IO.FS.realPath root).walkDir
  let mut seen := []
  for entry in entries do
    try
      if !(← entry.isDir) then seen := (toString entry, (← entry.metadata).modified) :: seen
    catch _ => continue
  return seen.reverse

partial def watch (json : Bool) (root : String) (o : Outputs) (before : Seen) : IO Unit := do
  let now ← look root
  let changed := now.filter fun (file, time) => !before.any fun e => e.1 = file && e.2 == time
  let gone := before.filter fun (file, _) => !now.any (·.1 = file)
  let o ← changed.foldlM (fun o (file, _) => sync json o (.ofText file) true) o
  let o ← gone.foldlM (fun o (file, _) => sync json o (.ofText file) false) o
  IO.sleep 500
  watch json root o now

def startWatch (i : Invocation) (s : Surroundings) (root outDir : Path) : IO UInt32 := do
  match configFrom i.config s.read with
  | .error reason => print (.failure reason)
  | .ok config =>
    IO.FS.createDirAll outDir.text
    let root := toString (← IO.FS.realPath root.text)
    let outDir := toString (← IO.FS.realPath outDir.text)
    watch i.json root
      { root := .ofText root, outDir := .ofText outDir, transformer := { config } } []
    return 0

def run (arguments : List String) : IO UInt32 := do
  let configPath ← IO.getEnv "ESBRIDGE_CONFIG"
  match Invocation.parse configPath arguments with
  | .error stop => print (stop.result configPath)
  | .ok i =>
    let surroundings ← gather i
    match i.task, i.plan surroundings with
    | .watch root outDir, .finish result =>
      if result.exit = 0 then startWatch i surroundings root outDir else print result
    | _, plan => follow plan

end ModuleHost.Main

def main (arguments : List String) : IO UInt32 :=
  ModuleHost.Main.run arguments
