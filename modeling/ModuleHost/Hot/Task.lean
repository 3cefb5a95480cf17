import ModuleHost.Hot.World

/-!
Single steps of tasks. `World.step` lets one task do the next thing and says whether it could; any
order in which tasks are let step is a run of the world. A frame that is done goes, and the one
below it goes on with what it hands down; what the last one hands down is recorded.
-/

namespace ModuleHost.Hot

open ModuleHost.Json

inductive Move where
  | advanced
  | paused
  | waiting
  deriving DecidableEq, Repr

def Returned.answer : Returned → String × Answer
  | .applied handled => ("apply", .flag handled)
  | .pruned => ("prune", .text "pruned")
  | .finished _ | .decided _ => ("", .nothing)

def Returned.ofJob : Job Value → Returned
  | .update _ => .applied true
  | .prune => .pruned

def loadedModule (path : String) (version : Nat) : Value :=
  .object [("path", .string path), ("version", .nat version)]

namespace World

def setFrames (w : World) (t : Nat) (frames : List Frame) : World :=
  { w with tasks := w.tasks.set t frames }

def reportFailure (w : World) (s : Sequence (Callback Action) Value) : Option Failure → World
  | none => w
  | some failure => w.report [failure.event s.phase (s.path w.registry)]

def advanceEvent (w : World) (p : Progress) (returned : Returned) : World × List Frame :=
  match p, returned with
  | .loading path version left, .finished none =>
    (w, [.request path (.update (some (loadedModule path version))), .progress (.applying left)])
  | .loading path _ _, .finished (some (.failed reason))
  | .loading path _ _, .finished (some (.panicked reason)) =>
    (w.report [⟨.error, "reloading module failed", [("path", .text path), ("error", .text reason)]⟩],
      [.progress (.decided .fullReload)])
  | .applying left, .applied true => (w, [.progress (.updating left)])
  | .applying _, _ => (w, [.progress (.decided .fullReload)])
  | p, _ => (w, [.progress p])

/-- The innermost frame has gone and hands something down. -/
def leave (w : World) (t : Nat) (below : List Frame) (returned : Returned) : World :=
  match below with
  | [] => (w.setFrames t []).record (.done t returned)
  | .script .. :: _ =>
    let (action, answer) := returned.answer
    (w.setFrames t below).recordAnswer action answer
  | .sequence _ s :: _ =>
    match returned with
    | .finished failure => (w.setFrames t below).reportFailure s failure
    | _ => w.setFrames t below
  | .progress p :: rest =>
    let (w, frames) := w.advanceEvent p returned
    w.setFrames t (frames ++ rest)
  | _ => w.setFrames t below

def act (w : World) (t : Nat) (scope : Scope) (action : Action) (rest : List Action)
    (below : List Frame) : World × Move :=
  let continued := Frame.script scope rest :: below
  match action with
  | .effect effect =>
    let (w, answer) := w.perform scope effect
    ((w.setFrames t continued).recordAnswer effect.name answer, .advanced)
  | .wait gate =>
    -- a closed gate leaves the frames as they are, and the action is tried again
    if w.openGates.contains gate then (w.setFrames t continued, .advanced) else (w, .waiting)
  | .yield => (w.setFrames t continued, .paused)
  | .fail reason => (w.leave t below (.finished (some (.failed reason))), .advanced)
  | .panic payload =>
    (w.leave t below (.finished (some (.panicked (panicText payload)))), .advanced)
  | .ifModule value steps =>
    let steps := if scope.module.any value.same then steps else []
    (w.setFrames t (.script scope (steps ++ rest) :: below), .advanced)
  | .apply path module => (w.setFrames t (.request path (.update module) :: continued), .advanced)
  | .prune path => (w.setFrames t (.request path .prune :: continued), .advanced)
  | .spawn command =>
    let (w, answer) := w.start command
    ((w.setFrames t continued).recordAnswer "spawn" answer, .advanced)

def request (w : World) (t : Nat) (path : String) (job : Job Value) (below : List Frame) : World :=
  match w.registry.find? path with
  | none =>
    match job with
    | .prune => w.leave t below .pruned
    | .update _ =>
      let w := w.report
        [⟨.warn, "no hot context registered; full reload required", [("path", .text path)]⟩]
      w.leave t below (.applied false)
  | some id =>
    let (sequence, registry, events) := Sequence.request w.registry id job
    let w := { w with registry }.report events
    match sequence with
    | some s => w.setFrames t (.sequence (.ofJob job) s :: below)
    -- queued, which for the caller is as good as done
    | none => w.leave t below (.ofJob job)

/-- The next thing that a sequence does between callbacks. -/
def advanceSequence (w : World) (t : Nat) (answer : Returned)
    (s : Sequence (Callback Action) Value) (below : List Frame) : World :=
  let (next, registry, events) := s.step w.registry
  let w := { w with registry }.report events
  match next with
  | .again s => w.setFrames t (.sequence answer s :: below)
  | .call phase callback module s =>
    let scope : Scope :=
      match phase with
      | .dispose => { data := some s.context }
      | .accept => { module }
    w.setFrames t (.script scope callback.actions :: .sequence answer s :: below)
  | .ended => w.leave t below answer

def load (w : World) (t : Nat) (path : String) (left : List String) (below : List Frame) : World :=
  -- a load counts from its beginning, even if it fails
  let version := ((w.versions.find? (·.1 = path)).map Prod.snd).getD 0 + 1
  let w := { w with versions := (path, version) :: w.versions }
  let w := w.record (.loaded path version)
  let waiting := Frame.progress (.loading path version left) :: below
  match w.modules.find? (·.1 = path) with
  | some (_, body) => w.setFrames t (.script {} body :: waiting)
  | none => w.leave t waiting (.finished (some (.failed ("no module " ++ path))))

def advanceProgress (w : World) (t : Nat) (p : Progress) (below : List Frame) : World :=
  match p with
  | .updating [] | .pruning [] => w.leave t below (.decided .proceed)
  | .updating (path :: left) =>
    let w := w.report [⟨.info, "hot update", [("path", .text path)]⟩]
    (w.record (.invalidated path)).load t path left below
  | .pruning (path :: left) =>
    (w.record (.invalidated path)).setFrames t
      (.request path .prune :: .progress (.pruning left) :: below)
  | .decided outcome => w.leave t below (.decided outcome)
  -- these only go on when the frame above them hands something down
  | .loading .. | .applying .. => w

def stepFrame (w : World) (t : Nat) (frame : Frame) (below : List Frame) : World × Move :=
  match frame with
  | .script _ [] => (w.leave t below (.finished none), .advanced)
  | .script scope (action :: rest) => w.act t scope action rest below
  | .request path job => (w.request t path job below, .advanced)
  | .sequence answer s => (w.advanceSequence t answer s below, .advanced)
  | .message m =>
    let p := (m.hostEvent?.map Progress.ofEvent).getD (.decided .proceed)
    ((w.report m.events).setFrames t (.progress p :: below), .advanced)
  | .progress p => (w.advanceProgress t p below, .advanced)

def step (w : World) (t : Nat) : World × Move :=
  match w.tasks[t]? with
  | some (frame :: below) => w.stepFrame t frame below
  | _ => (w, .waiting)

def releaseAll (registry : Contexts) (frames : List Frame) : Contexts :=
  frames.foldl
    (fun r frame =>
      match frame with
      | .sequence _ s => s.release r
      | _ => r)
    registry

/-- Drops a task where it stands, and says whether there was one that had not ended. -/
def cancel (w : World) (t : Nat) : World × Answer :=
  match w.tasks[t]? with
  | some (frame :: below) =>
    ({ w with registry := releaseAll w.registry (frame :: below) }.setFrames t [], .flag true)
  | _ => (w, .flag false)

end World

end ModuleHost.Hot
