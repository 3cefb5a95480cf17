import ModuleHost.Log
import ModuleHost.Text.Trim
import ModuleHost.Wrap.Edit
import ModuleHost.Wrap.Export
import ModuleHost.Wrap.Import

/-!
Converting the imports and exports of a module as edits of its text. Every item contributes its own
edits and findings, and what it contributes depends on the rest of the module only through the text
and the number of temporaries used before it. The text outside the edits stays as it is.
-/

namespace ModuleHost.Wrap

open ModuleHost.Syntax ModuleHost.Text

structure Diagnostic where
  code : String
  message : String
  specifier : String
  modulePath : String
  deriving DecidableEq, Repr

def Diagnostic.unrecognizedInternal (specifier path : String) : Diagnostic :=
  { code := "UNRECOGNIZED_INTERNAL_SPECIFIER"
    message := "Unknown dev-server internal import '" ++ specifier ++ "' in " ++ path ++
      "; it may not load in the host"
    specifier := specifier
    modulePath := path }

inductive EmitFault where
  | exportKeyword
  | defaultKeyword
  | edit (fault : Edit.Fault)
  deriving DecidableEq

def EmitFault.message : EmitFault → String
  | .exportKeyword => "export keyword not found"
  | .defaultKeyword => "default keyword not found"
  | .edit fault => fault.message

structure Setting where
  config : Config
  path : String
  source : List Char
  bodyLength : Nat

/-- What items add to the converted module. -/
structure Contribution where
  edits : List Edit := []
  imports : List ImportRecord := []
  diagnostics : List Diagnostic := []
  events : List Log.Event := []
  hasExports : Bool := false
  temporaries : Nat := 0

namespace Contribution

def append (a b : Contribution) : Contribution :=
  { edits := a.edits ++ b.edits
    imports := a.imports ++ b.imports
    diagnostics := a.diagnostics ++ b.diagnostics
    events := a.events ++ b.events
    hasExports := a.hasExports || b.hasExports
    temporaries := a.temporaries + b.temporaries }

instance : Append Contribution := ⟨append⟩

end Contribution

namespace Setting

def exportTarget (s : Setting) (name : String) : String :=
  member s.config.exportsIdent name

def sourceFrom (s : Setting) (offset : Nat) : List Char :=
  (dropBytes? s.source offset).getD []

def sourceUpTo (s : Setting) (offset : Nat) : List Char :=
  (takeBytes? s.source offset).getD []

def resolve (s : Setting) (specifier : String) : Resolution × Contribution :=
  if s.config.isHostNative specifier then (.hostNative, {})
  else if s.config.isUnknownTooling specifier then
    (.generic,
      { diagnostics := [.unrecognizedInternal specifier s.path]
        events := [⟨.warn, "unknown dev-server internal import; it may not load in the host",
          [("specifier", .text specifier), ("path", .text s.path)]⟩] })
  else (.generic, {})

def resolutionOf (s : Setting) (specifier : String) : String × Contribution :=
  let (resolution, found) := s.resolve specifier
  ("await " ++ resolutionCall s.config resolution specifier, found)

def lineBreakAt (s : Setting) (offset : Nat) : Nat :=
  let left := s.bodyLength - offset
  match s.sourceFrom offset with
  -- a line break that the end of the body cuts stays
  | '\r' :: '\n' :: _ => if 2 ≤ left then 2 else 0
  | '\n' :: _ => if 1 ≤ left then 1 else 0
  | _ => 0

def removeItem (s : Setting) (span : Span) : Edit :=
  .remove span.lo (span.hi + s.lineBreakAt span.hi)

def append (s : Setting) (span : Span) (text : String) : List Edit :=
  let terminated := (trimEnd (s.sourceUpTo span.hi)).getLast? = some ';'
  let appended := (if terminated then "" else ";") ++ (if text.isEmpty then "" else " " ++ text)
  if appended.isEmpty then [] else [.insert span.hi appended]

def exportWord : List Char := "export".toList

/-- Where the word `export` of an item starts and ends; decorators may stand in front of it. -/
def exportKeyword (s : Setting) (span : Span) : Except EmitFault Span :=
  match (slice? s.source span.lo span.hi).bind (find? exportWord) with
  | some at' => return ⟨span.lo + at', span.lo + at' + exportWord.length⟩
  | none => throw .exportKeyword

def blanksAt (s : Setting) (offset : Nat) : Nat :=
  byteLength ((s.sourceFrom offset).takeWhile isBlank)

def removeExport (s : Setting) (span : Span) : Except EmitFault Edit := do
  let keyword ← s.exportKeyword span
  return .remove keyword.lo (keyword.hi + s.blanksAt keyword.hi)

def replaceDefault (s : Setting) (span : Span) (text : String) : Except EmitFault Edit := do
  let keyword ← s.exportKeyword span
  -- only white space is passed over, so a comment there hides the second keyword
  let at' := keyword.hi + s.blanksAt keyword.hi
  match dropStart? "default".toList (s.sourceFrom at') with
  | none => throw .defaultKeyword
  | some _ =>
    let behind := at' + "default".length
    return ⟨keyword.lo, behind + s.blanksAt behind, text⟩

def assignment (s : Setting) (name value : String) : String :=
  s.exportTarget name ++ " = " ++ value ++ ";"

def importRecord (source : String) (resolution : Resolution) (entries : List ImportEntry) :
    ImportRecord :=
  entries.foldl
    (fun record entry =>
      match entry with
      | .defaultAs name => { record with default := some name }
      | .namespaceAs name => { record with namespaceName := some name }
      | .named imported name typeOnly =>
        if typeOnly then record
        else { record with named := record.named ++ [⟨imported, name⟩] })
    { source, resolution }

def isTypeEntry : ImportEntry → Bool
  | .named _ _ typeOnly => typeOnly
  | _ => false

/-- Takes an import out. One whose entries are all for types is not resolved at all. -/
def convertImport (s : Setting) (span : Span) (source : String) (entries : List ImportEntry)
    (typeOnly : Bool) : Contribution :=
  let removed : Contribution := { edits := [s.removeItem span] }
  if typeOnly then removed
  else
    let (resolution, found) := s.resolve source
    let record := importRecord source resolution entries
    -- an import with an empty list is kept for its effects
    let erased := entries.any isTypeEntry && record.bindingForm = .sideEffectOnly
    removed ++ found ++ { imports := if erased then [] else [record] }

def bindDeclaration (s : Setting) (span : Span) (name : String) : Except EmitFault Contribution := do
  let keyword ← s.exportKeyword span
  let text := "const " ++ name ++ " = " ++ s.exportTarget name ++ " ="
  return { edits := ⟨keyword.lo, keyword.hi, text⟩ :: s.append span "", hasExports := true }

def assignInside (s : Setting) (d : Declarator) (name : String) : Edit :=
  match d.value with
  | some value => .insert value.lo (s.exportTarget name ++ " = ")
  | none => .insert d.span.hi (" = " ++ s.exportTarget name ++ " = undefined")

/-- Exported variables: single names are assigned where they get their value, and the names of
patterns behind the statement. -/
def convertVariables (s : Setting) (span : Span) (declarators : List Declarator) :
    Except EmitFault Contribution := do
  let removal ← s.removeExport span
  let inside := declarators.filterMap fun d =>
    match d.target with
    | .name _ name => some (s.assignInside d name)
    | _ => none
  let names := declarators.flatMap fun d => topLevelBindings d.target
  let behind :=
    if names.isEmpty then []
    else s.append span (String.intercalate " " (names.map fun name => s.assignment name name))
  return { edits := removal :: (inside ++ behind), hasExports := !inside.isEmpty || !names.isEmpty }

def convertLocalList (s : Setting) (span : Span) (entries : List ExportEntry) : Contribution :=
  let assignments := (entries.filterMap ExportEntry.pair?).map fun (name, exported) =>
    s.assignment exported name
  { edits := [⟨span.lo, span.hi, String.intercalate " " assignments⟩]
    hasExports := !assignments.isEmpty }

def temporary (n : Nat) : String :=
  "__reexport_" ++ toString n

def reexportBlock (s : Setting) (call : String) (first : Nat) (pairs : List (String × String)) :
    String :=
  let numbered := pairs.zipIdx first
  let keys := numbered.map fun ((imported, _), n) => patternKey imported ++ ": " ++ temporary n
  let assignments := numbered.map fun ((_, exported), n) => s.assignment exported (temporary n)
  inBraces ("const " ++ inBraces (String.intercalate ", " keys) ++ " = " ++ call ++ "; " ++
    String.intercalate " " assignments)

def convertReexports (s : Setting) (first : Nat) (span : Span) (entries : List ExportEntry)
    (source : String) : Contribution :=
  let pairs := entries.filterMap ExportEntry.pair?
  let namespaces := entries.filterMap ExportEntry.namespaceName?
  if pairs.isEmpty && namespaces.isEmpty then { edits := [⟨span.lo, span.hi, ""⟩] }
  else
    let (call, found) := s.resolutionOf source
    let statements := namespaces.map (fun name => s.assignment name call) ++
      (if pairs.isEmpty then [] else [s.reexportBlock call first pairs])
    found ++
      { edits := [⟨span.lo, span.hi, String.intercalate " " statements⟩]
        hasExports := true
        temporaries := pairs.length }

def convertExport (s : Setting) (first : Nat) (span : Span) :
    ExportForm → Except EmitFault Contribution
  | .function name | .classForm name => s.bindDeclaration span name
  | .variable declarators => s.convertVariables span declarators
  | .localList entries => return s.convertLocalList span entries
  | .reexportList entries source => return s.convertReexports first span entries source
  | .default name => do
    let target := s.exportTarget "default" ++ " = "
    let text := (name.elim "" fun n => "const " ++ n ++ " = ") ++ target
    return { edits := (← s.replaceDefault span text) :: s.append span "", hasExports := true }
  | .wildcard source =>
    let (call, found) := s.resolutionOf source
    let text := "Object.assign(" ++ s.config.exportsIdent ++ ", " ++ call ++ ");"
    return found ++ { edits := [⟨span.lo, span.hi, text⟩], hasExports := true }
  | .localDeclaration name => do
    let removal ← s.removeExport span
    return { edits := removal :: s.append span (s.assignment name name), hasExports := true }
  | .typeOnly => return { edits := [s.removeItem span] }

def convertItem (s : Setting) (first : Nat) (item : Item) : Except EmitFault Contribution :=
  match item.shape with
  | .statement => return {}
  | .importFrom source entries typeOnly => return s.convertImport item.span source entries typeOnly
  | shape =>
    match exportForm? shape with
    | some form => s.convertExport first item.span form
    | none => return { events :=
        [⟨.debug, "leaving unsupported module syntax as-is", [("path", .text s.path)]⟩] }

/-- Converts items in order up to the first fault, which comes with what was found before it. -/
def convertItems (s : Setting) (done : Contribution) :
    List Item → Contribution × Option EmitFault
  | [] => (done, none)
  | item :: more =>
    match s.convertItem done.temporaries item with
    | .ok next => s.convertItems (done ++ next) more
    | .error fault => (done, some fault)

end Setting

structure Converted where
  body : String
  imports : List ImportRecord
  hasExports : Bool
  diagnostics : List Diagnostic

/-- Converts a module; the first `bodyLength` bytes of its text become the body. -/
def convert (config : Config) (path : String) (bodyLength : Nat) (m : Module) :
    Except EmitFault Converted × List Log.Event :=
  let bodyLength := min bodyLength (byteLength m.source)
  let s : Setting := { config, path, source := m.source, bodyLength }
  match s.convertItems {} m.items with
  | (done, some fault) => (.error fault, done.events)
  | (done, none) =>
    let metas := m.metas.map fun span => ⟨span.lo, span.hi, config.importMetaIdent⟩
    let body := (takeBytes? m.source bodyLength).getD m.source
    match Edit.applyAll (done.edits ++ metas) body with
    | .error fault => (.error (.edit fault), done.events)
    | .ok text =>
      (.ok
        { body := String.ofList text
          imports := done.imports
          hasExports := done.hasExports
          diagnostics := done.diagnostics }, done.events)

end ModuleHost.Wrap
