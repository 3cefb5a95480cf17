import ModuleHost.Config
import ModuleHost.Json.Expect

/-!
Configurations as JSON. An object sets some of the fields and leaves the others as they are by
default; an array sets them by their position. Keys that are no fields are ignored.
-/

namespace ModuleHost.Config

open ModuleHost.Json

inductive Setter where
  | text (set : String → Config → Config)
  | list (set : List String → Config → Config)

def fields : List (String × Setter) :=
  [("hostPrefix", .text fun v c => { c with hostPrefix := v }),
    ("internalIdPrefix", .text fun v c => { c with internalIdPrefix := v }),
    ("toolingPrefix", .text fun v c => { c with toolingPrefix := v }),
    ("knownTooling", .list fun v c => { c with knownTooling := v }),
    ("resolveFn", .text fun v c => { c with resolveFn := v }),
    ("hostImportFn", .text fun v c => { c with hostImportFn := v }),
    ("registerFn", .text fun v c => { c with registerFn := v }),
    ("exportsIdent", .text fun v c => { c with exportsIdent := v }),
    ("moduleIdent", .text fun v c => { c with moduleIdent := v }),
    ("importMetaIdent", .text fun v c => { c with importMetaIdent := v })]

def setter? (key : String) : Option Setter :=
  (fields.find? (·.1 = key)).map Prod.snd

def typeName : String := "struct TransformConfig"

def toValue (c : Config) : Value :=
  .object
    [("hostPrefix", .string c.hostPrefix), ("internalIdPrefix", .string c.internalIdPrefix),
      ("toolingPrefix", .string c.toolingPrefix), ("knownTooling", .strings c.knownTooling),
      ("resolveFn", .string c.resolveFn), ("hostImportFn", .string c.hostImportFn),
      ("registerFn", .string c.registerFn), ("exportsIdent", .string c.exportsIdent),
      ("moduleIdent", .string c.moduleIdent), ("importMetaIdent", .string c.importMetaIdent)]

def textOf : Value → Except Cause String
  | .string s => return s
  | v => throw (.invalidType v.found "a string")

def textsOf : Value → Except Cause (List String)
  | .array elements => elements.mapM textOf
  | v => throw (.invalidType v.found "a sequence")

def Setter.apply (c : Config) (v : Value) : Setter → Except Cause Config
  | .text set => return set (← textOf v) c
  | .list set => return set (← textsOf v) c

def ofEntries (c : Config) : List (String × Value) → Except Cause Config
  | [] => return c
  | (key, v) :: rest => do
    match setter? key with
    | some setter => ofEntries (← setter.apply c v) rest
    | none => ofEntries c rest

/-- Sets fields by position; answers what is left over as well. -/
def ofElements (c : Config) : List (String × Setter) → List Value → Except Cause (Config × List Value)
  | (_, setter) :: more, v :: rest => do ofElements (← setter.apply c v) more rest
  | _, rest => return (c, rest)

def ofValue (v : Value) : Except Cause Config := do
  match v.normalize with
  | .object entries => ofEntries {} entries
  | .array elements =>
    let (c, rest) ← ofElements {} fields elements
    unless rest.isEmpty do
      throw (.invalidLength elements.length "fewer elements in array")
    return c
  | other => throw (.invalidType other.found typeName)

def Setter.read (c : Config) : Setter → Read Config
  | .text set => return set (← Read.expectString "a string") c
  | .list set => return set (← Read.expectStrings) c

def readElements (first : Bool) (c : Config) : List (String × Setter) → Read Config
  | [] => return c
  | (_, setter) :: more => do
    if !(← Read.moreElements first) then return c
    readElements false (← setter.read c) more

def readEntries : Nat → Bool → List String → Config → Read Config
  | 0, _, _, c => return c
  | fuel + 1, first, seen, c => do
    if !(← Read.moreEntries first) then return c
    let key ← Read.string
    match setter? key with
    | some setter =>
      if seen.contains key then throw ⟨.duplicateField key, none⟩
      Read.colon
      readEntries fuel false (key :: seen) (← setter.read c)
    | none =>
      Read.colon
      Read.skipValue
      readEntries fuel false seen c

def read : Read Config := do
  match ← Read.next with
  | some '[' => Read.closedBy Read.endArray (Read.nested (readElements true {} fields))
  | some '{' =>
    Read.closedBy Read.endObject (Read.nested do readEntries (← Read.bound) true [] {})
  | some _ => Read.mismatch typeName
  | none => Read.fail .endOfValue

def parse (text : String) : Except Json.Fault Config :=
  Read.whole text read

inductive LoadFault where
  | read (path reason : String)
  | parse (path reason : String)

def LoadFault.message : LoadFault → String
  | .read path reason => "Failed to read config at " ++ path ++ ": " ++ reason
  | .parse path reason => "Failed to parse config at " ++ path ++ ": " ++ reason

def LoadFault.code : LoadFault → String
  | .read .. => "CONFIG_READ"
  | .parse .. => "CONFIG_PARSE"

/-- The configuration in a file, whose text is given or the reason why it cannot be read. -/
def load (path : String) (contents : Except String String) : Except LoadFault Config :=
  match contents with
  | .error reason => .error (.read path reason)
  | .ok text =>
    match parse text with
    | .error fault => .error (.parse path (fault.message text))
    | .ok c => .ok c

end ModuleHost.Config
