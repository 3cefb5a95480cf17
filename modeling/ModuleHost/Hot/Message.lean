import ModuleHost.Json.Value
import ModuleHost.Log

/-!
The messages a development server sends, and what the host has to do in answer to them.
-/

namespace ModuleHost.Hot

open ModuleHost.Json

inductive UpdateKind where
  | js
  | css
  deriving DecidableEq, Repr

def UpdateKind.name : UpdateKind → String
  | .js => "js-update"
  | .css => "css-update"

structure UpdateEntry where
  kind : UpdateKind
  path : String
  acceptedPath : String
  timestamp : Nat
  deriving DecidableEq, Repr

/-- A build error that the server reports. -/
structure ServerError where
  message : String
  stack : String := ""
  id : Option String := none
  plugin : Option String := none
  extra : List (String × Value) := []

inductive Message where
  | connected
  | ping
  | update (updates : List UpdateEntry)
  | prune (paths : List String)
  | fullReload (path triggeredBy : Option String)
  | custom (event : String) (data : Value)
  | error (err : ServerError)

inductive HostEvent where
  | update (paths : List String)
  | prune (paths : List String)
  | fullReload
  deriving DecidableEq, Repr

def HostEvent.toValue : HostEvent → Value
  | .update paths => .object [("kind", .string "update"), ("paths", .strings paths)]
  | .prune paths => .object [("kind", .string "prune"), ("paths", .strings paths)]
  | .fullReload => .object [("kind", .string "full-reload")]

namespace Message

def distinct (paths : List String) : List String :=
  paths.foldl (fun found p => if found.contains p then found else found ++ [p]) []

/-- The action that a message asks for. Messages that only inform ask for none. -/
def hostEvent? : Message → Option HostEvent
  | .connected | .ping | .custom .. | .error _ => none
  | .update updates =>
    let paths := distinct (updates.map UpdateEntry.acceptedPath)
    if paths.isEmpty then none else some (.update paths)
  | .prune paths => if paths.isEmpty then none else some (.prune paths)
  | .fullReload .. => some .fullReload

def events : Message → List Log.Event
  | .connected => [⟨.info, "HMR connection established", []⟩]
  | .fullReload path triggeredBy =>
    [⟨.info, "full reload requested",
      [("path", .text (path.getD "")), ("triggered_by", .text (triggeredBy.getD ""))]⟩]
  | .error err =>
    [⟨.error, "dev server error: " ++ err.message,
      [("plugin", .text (err.plugin.getD "")), ("id", .text (err.id.getD ""))]⟩]
  | .ping | .update _ | .prune _ | .custom .. => []

end Message

end ModuleHost.Hot
