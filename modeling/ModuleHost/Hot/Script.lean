import ModuleHost.Hot.Message
import ModuleHost.Hot.Registry

/-!
Scripts. In the place of code, modules and their callbacks are lists of actions: what they do to hot
contexts, when they have to wait, and how they fail. Contexts are referred to by handles, names that
all scripts share.
-/

namespace ModuleHost.Hot

open ModuleHost.Json

/-- A callback as registered: what it does while it is called and what it does afterwards, which may
take its time. -/
structure Callback (α : Type) where
  atOnce : List α := []
  steps : List α := []

def Callback.actions {α : Type} (c : Callback α) : List α :=
  c.atOnce ++ c.steps

/-- Actions that take no time. Data are those of a handle, or else those that a callback was given. -/
inductive Effect (α : Type) where
  | note (text : String)
  | showModule
  | create (path : String) (handle : Option String)
  | get (path : String) (handle : Option String)
  | contains (path : String)
  | list
  | count
  | accept (handle : String) (callback : Callback α)
  | dispose (handle : String) (callback : Callback α)
  | acceptSelf (handle : String)
  | onPrune (handle : String)
  | invalidate (handle : String) (message : Option String)
  | listen (handle : String)
  | send (handle : String)
  | set (handle : Option String) (key : String) (value : Value)
  | read (handle : Option String) (key : String)
  | delete (handle : Option String) (key : String)
  | size (handle : Option String)
  | displayData (handle : Option String)
  | display (handle : String)
  | same (first second : String)
  | state (handle : String)
  | openGate (gate : String)
  | closeGate (gate : String)

inductive Command (α : Type) where
  | apply (path : String) (module : Option Value)
  | prune (path : String)
  | run (steps : List α)
  | event (event : HostEvent)
  | message (text : String)

inductive Action where
  | effect (effect : Effect Action)
  | wait (gate : String)
  | yield
  | fail (reason : String)
  | panic (payload : Option Value)
  | ifModule (value : Value) (steps : List Action)
  | apply (path : String) (module : Option Value)
  | prune (path : String)
  | spawn (command : Command Action)

def panicText : Option Value → String
  | none => "static panic"
  | some (.string text) => text
  | some _ => "unknown panic"

def Effect.name {α : Type} : Effect α → String
  | .note _ => "log"
  | .showModule => "module"
  | .create .. => "create"
  | .get .. => "get"
  | .contains _ => "contains"
  | .list => "list"
  | .count => "count"
  | .accept .. => "accept"
  | .dispose .. => "dispose"
  | .acceptSelf _ => "accept_self"
  | .onPrune _ => "prune_cb"
  | .invalidate .. => "invalidate"
  | .listen _ => "on"
  | .send _ => "send"
  | .set .. => "set"
  | .read .. => "read"
  | .delete .. => "delete"
  | .size _ => "size"
  | .displayData _ => "data_debug"
  | .display _ => "debug"
  | .same .. => "same"
  | .state _ => "state"
  | .openGate _ => "open"
  | .closeGate _ => "close"

end ModuleHost.Hot
