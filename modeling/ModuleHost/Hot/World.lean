import ModuleHost.Hot.MessageText
import ModuleHost.Hot.Script
import ModuleHost.Hot.Sequence

/-!
The world in which scripts run: the registry, the handles on its contexts, the gates, the modules
that can be loaded, the tasks, and a log of all that happens. Effects are carried out here; what
takes its time is carried on by tasks, each a stack of frames with the innermost first.
-/

namespace ModuleHost.Hot

open ModuleHost.Json

abbrev Contexts := Registry (Callback Action) Value

structure ContextState where
  path : String
  accepts : Nat
  disposes : Nat
  selfAccepted : Bool
  data : Data

def Context.state {α μ : Type} (c : Context α μ) : ContextState :=
  ⟨c.path, c.accepts.length, c.disposes.length, c.selfAccepted, c.data⟩

inductive Answer where
  | nothing
  | unknownHandle (name : String)
  | state (s : ContextState)
  | flag (b : Bool)
  | flags (first second : Bool)
  | paths (paths : List String)
  | count (n : Nat)
  | value (v : Value)
  | entry (v : Option Value)
  | text (s : String)
  | task (number : Nat)
  | refusal (reason : String)

def Answer.former : Option Value → Answer
  | none | some .null => .nothing
  | some v => .value v

inductive Outcome where
  | proceed
  | fullReload
  deriving DecidableEq, Repr

/-- What a frame hands down to the one below it, or a task to the log. -/
inductive Returned where
  | finished (failure : Option Failure)
  | applied (handled : Bool)
  | pruned
  | decided (outcome : Outcome)

/-- What a script can refer to without a handle. -/
structure Scope where
  module : Option Value := none
  data : Option Nat := none

inductive Progress where
  | updating (paths : List String)
  | loading (path : String) (version : Nat) (left : List String)
  | applying (left : List String)
  | pruning (paths : List String)
  | decided (outcome : Outcome)

inductive Frame where
  | script (scope : Scope) (rest : List Action)
  | request (path : String) (job : Job Value)
  | sequence (answer : Returned) (s : Sequence (Callback Action) Value)
  | message (m : Message)
  | progress (p : Progress)

inductive Entry where
  | event (e : Log.Event)
  | note (text : String)
  | module (instance? : Option Value)
  | did (action : String) (answer : Answer)
  | done (task : Nat) (returned : Returned)
  | invalidated (path : String)
  | loaded (path : String) (version : Nat)

structure World where
  registry : Contexts := {}
  handles : List (String × Nat) := []
  openGates : List String := []
  modules : List (String × List Action) := []
  versions : List (String × Nat) := []
  tasks : List (List Frame) := []
  log : List Entry := []

namespace World

def record (w : World) (entry : Entry) : World :=
  { w with log := w.log ++ [entry] }

def report (w : World) (events : List Log.Event) : World :=
  { w with log := w.log ++ events.map .event }

def states (w : World) : List ContextState :=
  w.registry.paths.filterMap fun path =>
    ((w.registry.find? path).bind w.registry.context?).map Context.state

def pending (w : World) : List Nat :=
  (List.range w.tasks.length).filter fun t => !((w.tasks[t]?).getD []).isEmpty

def handle? (w : World) (name : String) : Option Nat :=
  (w.handles.find? (·.1 = name)).map Prod.snd

def bind (w : World) (name : Option String) (id : Nat) : World :=
  match name with
  | none => w
  | some name => { w with handles := (name, id) :: w.handles }

def withHandle (w : World) (name : String) (act : Nat → World × Answer) : World × Answer :=
  match w.handle? name with
  | some id => act id
  | none => (w, .unknownHandle name)

def withData (w : World) (scope : Scope) (name : Option String)
    (act : Nat → Data → World × Answer) : World × Answer :=
  let onContext (id : Nat) := act id (((w.registry.context? id).map Context.data).getD {})
  match name, scope.data with
  -- without a handle, the data that a disposing callback was given
  | none, some id => onContext id
  | name, _ => w.withHandle (name.getD "") onContext

def stateOf (w : World) (id : Nat) : Answer :=
  ((w.registry.context? id).map fun c => Answer.state c.state).getD .nothing

def alter (w : World) (f : Contexts → Contexts) : World × Answer :=
  ({ w with registry := f w.registry }, .nothing)

def perform (w : World) (scope : Scope) : Effect Action → World × Answer
  | .note text => (w.record (.note text), .nothing)
  | .showModule => (w.record (.module scope.module), .nothing)
  | .create path handle =>
    let (id, registry, events) := w.registry.create path
    let w := ({ w with registry }.report events).bind handle id
    (w, w.stateOf id)
  | .get path handle =>
    match w.registry.find? path with
    | some id => (w.bind handle id, .flag true)
    | none => (w, .flag false)
  | .contains path => (w, .flag (w.registry.contains path))
  | .list => (w, .paths w.registry.paths)
  | .count => (w, .count w.registry.size)
  | .accept handle callback => w.withHandle handle fun id => w.alter (·.addAccept id callback)
  | .dispose handle callback => w.withHandle handle fun id => w.alter (·.addDispose id callback)
  | .acceptSelf handle => w.withHandle handle fun id => w.alter (·.acceptSelf id)
  | .onPrune handle | .listen handle | .send handle => w.withHandle handle fun _ => (w, .nothing)
  | .invalidate handle message => w.withHandle handle fun id =>
    let path := ((w.registry.context? id).map Context.path).getD ""
    (w.report [⟨.warn, message.getD "", [("path", .text path)]⟩], .nothing)
  | .set handle key value => w.withData scope handle fun id data =>
    ((w.alter (·.setData id (·.insert key value))).1, .former (data.get? key))
  | .read handle key => w.withData scope handle fun _ data => (w, .entry (data.get? key))
  | .delete handle key => w.withData scope handle fun id data =>
    ((w.alter (·.setData id (·.erase key))).1, .former (data.get? key))
  | .size handle => w.withData scope handle fun _ data => (w, .count data.size)
  | .displayData handle => w.withData scope handle fun _ data => (w, .text data.display)
  | .display handle => w.withHandle handle fun id =>
    (w, .text (((w.registry.context? id).map Context.display).getD ""))
  | .same first second =>
    w.withHandle first fun a => w.withHandle second fun b => (w, .flags (a = b) (a = b))
  | .state handle => w.withHandle handle fun id => (w, w.stateOf id)
  | .openGate gate => ({ w with openGates := gate :: w.openGates }, .nothing)
  | .closeGate gate => ({ w with openGates := w.openGates.filter (· ≠ gate) }, .nothing)

def addTask (w : World) (frame : Frame) : World × Answer :=
  ({ w with tasks := w.tasks ++ [[frame]] }, .task w.tasks.length)

def Progress.ofEvent : HostEvent → Progress
  | .update paths => .updating paths
  | .prune paths => .pruning paths
  | .fullReload => .decided .fullReload

def start (w : World) : Command Action → World × Answer
  | .apply path module => w.addTask (.request path (.update module))
  | .prune path => w.addTask (.request path .prune)
  | .run steps => w.addTask (.script {} steps)
  | .event event => w.addTask (.progress (Progress.ofEvent event))
  | .message text =>
    match Message.parse text with
    | .ok m => w.addTask (.message m)
    | .error fault => (w, .refusal (Message.refusal text fault))

def recordAnswer (w : World) (action : String) : Answer → World
  | .nothing => w
  | answer => w.record (.did action answer)

end World

end ModuleHost.Hot
