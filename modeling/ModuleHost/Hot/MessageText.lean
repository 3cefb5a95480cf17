import ModuleHost.Hot.Message
import ModuleHost.Json.Read
import ModuleHost.Json.Expect

/-!
Messages as JSON text. A message is an object whose key `type` tells its kind, or an array that
begins with the kind. Reading goes in two steps: the text is read up to its end with the kind set
apart, and then the rest is understood as the fields of that kind. Faults of the second step have no
place in the text.
-/

namespace ModuleHost.Hot

open ModuleHost.Json

inductive MessageKind where
  | connected
  | ping
  | update
  | prune
  | fullReload
  | custom
  | error
  deriving DecidableEq, Repr

namespace MessageKind

def all : List MessageKind :=
  [.connected, .ping, .update, .prune, .fullReload, .custom, .error]

def name : MessageKind → String
  | .connected => "connected"
  | .ping => "ping"
  | .update => "update"
  | .prune => "prune"
  | .fullReload => "full-reload"
  | .custom => "custom"
  | .error => "error"

def ofName? (name : String) : Option MessageKind :=
  all.find? (·.name = name)

def read : Read MessageKind := Read.placed do
  let name ← Read.expectString "variant identifier"
  match ofName? name with
  | some kind => return kind
  | none => throw ⟨.unknownVariant name (all.map MessageKind.name), none⟩

end MessageKind

def readEntries : Nat → Bool → Option MessageKind → Read (Option MessageKind × List (String × Value))
  | 0, _, kind => return (kind, [])
  | fuel + 1, first, kind => do
    if !(← Read.moreEntries first) then return (kind, [])
    let key ← Read.string
    if key = "type" then
      if kind.isSome then throw ⟨.duplicateField "type", none⟩
      Read.colon
      readEntries fuel false (some (← MessageKind.read))
    else
      Read.colon
      let v ← Read.value Read.depthLimit
      let (kind, entries) ← readEntries fuel false kind
      return (kind, (key, v) :: entries)

def readTagged : Read (MessageKind × Value) := do
  match ← Read.next with
  | some '[' =>
    Read.closedBy Read.endArray <| Read.nested do
      if !(← Read.moreElements true) then throw ⟨.missingField "type", none⟩
      let kind ← MessageKind.read
      let rest ← Read.elementsWith (Read.value Read.depthLimit) (← Read.bound) false
      return (kind, .array rest)
  | some '{' =>
    Read.closedBy Read.endObject <| Read.nested do
      let (kind, entries) ← readEntries (← Read.bound) true none
      match kind with
      | some kind => return (kind, .object entries)
      | none => throw ⟨.missingField "type", none⟩
  | some _ => Read.mismatch "internally tagged enum HmrMessage"
  | none => Read.fail .endOfValue

abbrev Decode := Except Cause

namespace Decode

def mismatch {α : Type} (v : Value) (expected : String) : Decode α :=
  throw (.invalidType v.found expected)

def string : Value → Decode String
  | .string s => return s
  | v => mismatch v "a string"

def strings : Value → Decode (List String)
  | .array elements => elements.mapM string
  | v => mismatch v "a sequence"

def optionalString : Value → Decode (Option String)
  | .null => return none
  | v => some <$> string v

def word : Value → Decode Nat
  | .number (.int n) =>
    if 0 ≤ n then return n.toNat else throw (.invalidValue (.number (.int n)) "u64")
  | v => mismatch v "u64"

/-- A field that values are collected for. -/
structure KeyedField (σ : Type) where
  key : String
  take : Value → σ → Decode σ

def entries {σ : Type} (fields : List (KeyedField σ)) :
    List String → List (String × Value) → σ → Decode σ
  | _, [], s => return s
  | seen, (key, v) :: rest, s =>
    match fields.find? (·.key = key) with
    | none => entries fields seen rest s
    | some field => do
      if seen.contains key then throw (.duplicateField key)
      entries fields (key :: seen) rest (← field.take v s)

def elements {σ : Type} : List (KeyedField σ) → List Value → σ → Decode (σ × List Value)
  | field :: fields, v :: rest, s => do elements fields rest (← field.take v s)
  | _, rest, s => return (s, rest)

def countText (n : Nat) : String :=
  if n = 1 then "1 element" else toString n ++ " elements"

def required {α : Type} (key : String) : Option α → Decode α
  | some a => return a
  | none => throw (.missingField key)

def requiredAt {α : Type} (position : Nat) (expected : String) : Option α → Decode α
  | some a => return a
  | none => throw (.invalidLength position expected)

def noneLeft (total : Nat) (left : List Value) : Decode Unit := do
  unless left.isEmpty do
    throw (.invalidLength total (countText (total - left.length) ++ " in sequence"))

/-- How a structure is put together from what has been collected: as an object, where a missing
field is named, or as an array, where it is counted. -/
structure Shape (σ α : Type) where
  title : String
  fields : List (KeyedField σ)
  initial : σ
  build : ((β : Type) → Nat → String → Option β → Decode β) → σ → Decode α

def Shape.expected {σ α : Type} (s : Shape σ α) : String :=
  s.title ++ " with " ++ countText s.fields.length

def Shape.ofEntries {σ α : Type} (s : Shape σ α) (es : List (String × Value)) : Decode α := do
  s.build (fun _ _ key found => required key found) (← entries s.fields [] es s.initial)

def Shape.ofElements {σ α : Type} (s : Shape σ α) (vs : List Value) : Decode α := do
  let (state, left) ← elements s.fields vs s.initial
  let a ← s.build (fun _ position _ found => requiredAt position s.expected found) state
  noneLeft vs.length left
  return a

def Shape.ofValue {σ α : Type} (s : Shape σ α) : Value → Decode α
  | .object es => s.ofEntries es
  | .array vs => s.ofElements vs
  | v => mismatch v s.title

end Decode

open Decode

def UpdateKind.ofName (name : String) : Decode UpdateKind :=
  if name = UpdateKind.js.name then return .js
  else if name = UpdateKind.css.name then return .css
  else throw (.unknownVariant name [UpdateKind.js.name, UpdateKind.css.name])

/-- A kind of update, by its name or as an object with that name and nothing in it. -/
def UpdateKind.ofValue : Value → Decode UpdateKind
  | .string name => UpdateKind.ofName name
  | .object [(name, content)] => do
    let kind ← UpdateKind.ofName name
    match content with
    | .null | .object [] => return kind
    | v => mismatch v "unit"
  | .object _ => throw (.invalidValue .map "map with a single key")
  | v => mismatch v "string or map"

structure UpdateFields where
  kind : Option UpdateKind := none
  path : Option String := none
  acceptedPath : Option String := none
  timestamp : Option Nat := none

def UpdateEntry.shape : Shape UpdateFields UpdateEntry where
  title := "struct UpdatePayload"
  fields :=
    [⟨"type", fun v s => return { s with kind := some (← UpdateKind.ofValue v) }⟩,
      ⟨"path", fun v s => return { s with path := some (← string v) }⟩,
      ⟨"acceptedPath", fun v s => return { s with acceptedPath := some (← string v) }⟩,
      ⟨"timestamp", fun v s => return { s with timestamp := some (← word v) }⟩]
  initial := {}
  build require s := do
    return { kind := ← require _ 0 "type" s.kind
             path := ← require _ 1 "path" s.path
             acceptedPath := ← require _ 2 "acceptedPath" s.acceptedPath
             timestamp := ← require _ 3 "timestamp" s.timestamp }

structure ErrorFields where
  message : Option String := none
  stack : Option String := none
  id : Option (Option String) := none
  plugin : Option (Option String) := none

def errorFields : List (KeyedField ErrorFields) :=
  [⟨"message", fun v s => return { s with message := some (← string v) }⟩,
    ⟨"stack", fun v s => return { s with stack := some (← string v) }⟩,
    ⟨"id", fun v s => return { s with id := some (← optionalString v) }⟩,
    ⟨"plugin", fun v s => return { s with plugin := some (← optionalString v) }⟩]

/-- An error report, which has to be an object since it keeps what else it holds. -/
def ServerError.ofValue : Value → Decode ServerError
  | .object es => do
    let s ← entries errorFields [] es {}
    let extra := es.filter fun e => !errorFields.any (·.key = e.1)
    return { message := ← required "message" s.message
             stack := s.stack.getD ""
             id := s.id.getD none
             plugin := s.plugin.getD none
             extra := sortEntries (extra.map fun (key, v) => (key, v.normalize)) }
  | v => mismatch v "struct ErrorPayload"

def variantTitle (name : String) : String :=
  "struct variant HmrMessage::" ++ name

def singleField {α : Type} (title key : String) (take : Value → Decode α) (build : α → Message) :
    Shape (Option α) Message where
  title := variantTitle title
  fields := [⟨key, fun v _ => return some (← take v)⟩]
  initial := none
  build require s := do return build (← require _ 0 key s)

def updates : Value → Decode (List UpdateEntry)
  | .array elements => elements.mapM UpdateEntry.shape.ofValue
  | v => mismatch v "a sequence"

structure ReloadFields where
  path : Option String := none
  triggeredBy : Option String := none

def reloadShape : Shape ReloadFields Message where
  title := variantTitle "FullReload"
  fields :=
    [⟨"path", fun v s => return { s with path := ← optionalString v }⟩,
      ⟨"triggeredBy", fun v s => return { s with triggeredBy := ← optionalString v }⟩]
  initial := {}
  build _ s := return .fullReload s.path s.triggeredBy

structure CustomFields where
  event : Option String := none
  data : Value := .null

def customShape : Shape CustomFields Message where
  title := variantTitle "Custom"
  fields :=
    [⟨"event", fun v s => return { s with event := some (← string v) }⟩,
      ⟨"data", fun v s => return { s with data := v.normalize }⟩]
  initial := {}
  build require s := do return .custom (← require _ 0 "event" s.event) s.data

def bare (message : Message) : Value → Decode Message
  | .array vs => do
    noneLeft vs.length vs
    return message
  | _ => return message

def Message.ofContent (content : Value) : MessageKind → Decode Message
  | .connected => bare .connected content
  | .ping => bare .ping content
  | .update => (singleField "Update" "updates" updates .update).ofValue content
  | .prune => (singleField "Prune" "paths" strings .prune).ofValue content
  | .fullReload => reloadShape.ofValue content
  | .custom => customShape.ofValue content
  | .error => (singleField "Error" "err" ServerError.ofValue .error).ofValue content

def Message.parse (text : String) : Except Fault Message := do
  let (kind, content) ← Read.whole text readTagged
  match Message.ofContent content kind with
  | .ok m => return m
  | .error cause => throw ⟨cause, none⟩

def Message.refusal (text : String) (fault : Fault) : String :=
  "invalid HMR message: " ++ fault.message text

def UpdateEntry.toValue (u : UpdateEntry) : Value :=
  .object
    [("type", .string u.kind.name), ("path", .string u.path),
      ("acceptedPath", .string u.acceptedPath), ("timestamp", .nat u.timestamp)]

def optionalText (s : Option String) : Value :=
  (s.map Value.string).getD .null

def ServerError.toValue (e : ServerError) : Value :=
  .object <|
    [("message", .string e.message), ("stack", .string e.stack), ("id", optionalText e.id),
      ("plugin", optionalText e.plugin)] ++ e.extra

def Message.fieldValues : Message → MessageKind × List (String × Value)
  | .connected => (.connected, [])
  | .ping => (.ping, [])
  | .update us => (.update, [("updates", .array (us.map UpdateEntry.toValue))])
  | .prune paths => (.prune, [("paths", .strings paths)])
  | .fullReload path by' =>
    (.fullReload, [("path", optionalText path), ("triggeredBy", optionalText by')])
  | .custom event data => (.custom, [("event", .string event), ("data", data)])
  | .error err => (.error, [("err", err.toValue)])

def Message.toValue (m : Message) : Value :=
  let (kind, fields) := m.fieldValues
  .object (("type", .string kind.name) :: fields)

def Message.print (m : Message) : String :=
  m.toValue.print

end ModuleHost.Hot
