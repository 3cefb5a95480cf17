import ModuleHost.Files.Tree
import ModuleHost.Json.Value
import ModuleHost.Wrap.Cache

/-!
Outputs that follow a tree of sources: the output for every module file below the root is the
transformed module. `Outputs.step` decides what has to be done about one file from what is found
there, and `Outputs.sync` does it in a tree of files.
-/

namespace ModuleHost.Watch

open ModuleHost.Files ModuleHost.Wrap

def moduleExtensions : List String :=
  ["js", "mjs", "jsx", "ts", "mts", "tsx"]

def isModuleFile (p : Path) : Bool :=
  p.extension?.any moduleExtensions.contains

inductive Source where
  | missing
  | unreadable
  | text (s : String)

inductive Report where
  | update (modulePath : String) (out : Path) (cached : Bool)
  | prune (modulePath : String)
  | error (modulePath : String) (cause : TransformError)

def Report.toValue : Report → Json.Value
  | .update modulePath out cached =>
    .object
      [("action", .string "update"), ("module_path", .string modulePath), ("out", .string out.text),
        ("cached", .bool cached)]
  | .prune modulePath =>
    .object [("action", .string "prune"), ("module_path", .string modulePath)]
  | .error modulePath cause =>
    .object
      [("action", .string "error"), ("module_path", .string modulePath),
        ("code", .string cause.code), ("message", .string cause.message)]

inductive Change where
  | write (out : Path) (code : String)
  | remove (out : Path)

structure Outputs where
  root : Path
  outDir : Path
  transformer : Transformer

namespace Outputs

def modulePath? (m : Outputs) (file : Path) : Option String :=
  (file.relativeTo? m.root).map Path.url

def outputPath? (m : Outputs) (file : Path) : Option Path :=
  (file.relativeTo? m.root).map fun relative => (m.outDir.join relative).withExtension "js"

def isSource (m : Outputs) (file : Path) : Bool :=
  isModuleFile file && !file.beginsWith m.outDir

def stepAt (m : Outputs) (modulePath : String) (out : Path) (outExists : Bool) :
    Source → Outputs × Option (Report × Option Change)
  | .missing =>
    -- forgotten before the output is removed, and whether or not that goes well
    let transformer := (m.transformer.invalidate modulePath).2
    ({ m with transformer }, some (.prune modulePath, some (.remove out)))
  | .unreadable => (m, none)
  | .text source =>
    let cached := m.transformer.isCached modulePath source
    match m.transformer.transform source modulePath with
    | ((.error cause, _), transformer) =>
      ({ m with transformer }, some (.error modulePath cause, none))
    | ((.ok output, _), transformer) =>
      -- the transformer knows the text from now on, even if the write fails
      let change := if cached && outExists then none else some (.write out output.code)
      ({ m with transformer }, some (.update modulePath out cached, change))

/-- What has to be done about a file, given what is found there and whether its output exists. -/
def step (m : Outputs) (file : Path) (source : Source) (outExists : Bool) :
    Outputs × Option (Report × Option Change) :=
  if m.isSource file then
    match m.modulePath? file, m.outputPath? file with
    | some modulePath, some out => m.stepAt modulePath out outExists source
    | _, _ => (m, none)
  else (m, none)

end Outputs

def Source.ofTree (t : Tree) (file : Path) : Source :=
  if t.exists? file then
    match t.readLossy file with
    | .ok code => .text code
    | .error _ => .unreadable
  else .missing

def Change.apply (t : Tree) : Change → Tree
  | .write out code => ((t.write out code.toUTF8.toList).toOption).getD t
  | .remove out => ((t.remove out).toOption).getD t

/-- Brings the output for a file in line with the tree. -/
def Outputs.sync (m : Outputs) (t : Tree) (file : Path) : Outputs × Tree × Option Report :=
  let outExists := (m.outputPath? file).any t.exists?
  match m.step file (Source.ofTree t file) outExists with
  | (m, none) => (m, t, none)
  | (m, some (report, change)) => (m, change.elim t (·.apply t), some report)

end ModuleHost.Watch
