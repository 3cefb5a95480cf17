import ModuleHost.Hot.Registry

/-!
Sequences of callbacks. An update runs the callbacks that dispose of old instances and then those
that accept the new one; a prune only disposes and then forgets the path. A sequence holds its
context busy, and what is asked for meanwhile waits in the queue of the context and is run behind it.

`Sequence.step` does all that happens between two callbacks, one thing at a time. It yields either
the callback that has to run next, or that the sequence has ended; what becomes of a callback does
not change how the sequence goes on.
-/

namespace ModuleHost.Hot

inductive Phase where
  | dispose
  | accept
  deriving DecidableEq, Repr

def Phase.name : Phase → String
  | .dispose => "dispose"
  | .accept => "accept"

inductive Stage (α μ : Type) where
  | starting (job : Job μ)
  | disposing (job : Job μ) (left : List α)
  | accepting (module : Option μ) (generation : Nat) (taken left : List α)

/-- A sequence that holds a context. -/
structure Sequence (α μ : Type) where
  context : Nat
  stage : Stage α μ

def Sequence.phase {α μ : Type} (s : Sequence α μ) : Phase :=
  match s.stage with
  | .starting _ | .disposing .. => .dispose
  | .accepting .. => .accept

inductive Next (α μ : Type) where
  | again (s : Sequence α μ)
  | call (phase : Phase) (callback : α) (module : Option μ) (s : Sequence α μ)
  | ended

namespace Sequence

variable {α μ : Type}

/-- Asks for a job: a busy context queues it, any other starts it. -/
def request (r : Registry α μ) (id : Nat) (job : Job μ) :
    Option (Sequence α μ) × Registry α μ × List Log.Event :=
  match r.context? id with
  | none => (none, r, [])
  | some c =>
    if c.busy then
      (none, r.enqueue id job,
        [⟨.debug, "hot sequence already running; queued", [("path", .text c.path)]⟩])
    else (some ⟨id, .starting job⟩, r.setBusy id true, [])

def release (s : Sequence α μ) (r : Registry α μ) : Registry α μ :=
  r.setBusy s.context false

def proceed (s : Sequence α μ) (r : Registry α μ) : Next α μ × Registry α μ :=
  match (r.context? s.context).map Context.queue with
  | some (job :: rest) =>
    (.again { s with stage := .starting job }, r.modify s.context fun c => { c with queue := rest })
  | _ => (.ended, s.release r)

/-- Puts the callbacks of an update back, in front of those registered meanwhile, unless the context
was handed out again or forgotten while they ran. -/
def putBack (s : Sequence α μ) (r : Registry α μ) (path : String) (generation : Nat)
    (taken : List α) : Registry α μ :=
  if r.find? path = some s.context then
    r.modify s.context fun c =>
      if c.generation = generation then { c with accepts := taken ++ c.accepts } else c
  else r

def path (s : Sequence α μ) (r : Registry α μ) : String :=
  ((r.context? s.context).map Context.path).getD ""

def step (s : Sequence α μ) (r : Registry α μ) : Next α μ × Registry α μ × List Log.Event :=
  match s.stage with
  | .starting job =>
    -- the list is taken at once, so what is registered from now on waits for the next sequence
    let taken := ((r.context? s.context).map Context.disposes).getD []
    (.again { s with stage := .disposing job taken },
      r.modify s.context (fun c => { c with disposes := [] }), [])
  | .disposing job (callback :: left) =>
    (.call .dispose callback none { s with stage := .disposing job left }, r, [])
  | .disposing (.update module) [] =>
    let taken := ((r.context? s.context).map Context.accepts).getD []
    -- the generation tells later whether the context was handed out meanwhile
    let generation := ((r.context? s.context).map Context.generation).getD 0
    (.again { s with stage := .accepting module generation taken taken },
      r.modify s.context (fun c => { c with accepts := [] }), [])
  | .disposing .prune [] =>
    let path := s.path r
    -- what was asked for behind a prune goes with the context
    let r := (r.unregister path s.context).modify s.context fun c => { c with queue := [] }
    (.ended, s.release r, [⟨.info, "pruned hot context", [("path", .text path)]⟩])
  | .accepting module generation taken (callback :: left) =>
    (.call .accept callback module { s with stage := .accepting module generation taken left }, r, [])
  | .accepting _ generation taken [] =>
    let path := s.path r
    -- the callbacks are back before the next job can take them
    let (next, r) := s.proceed (s.putBack r path generation taken)
    (next, r, [⟨.debug, "hot update applied", [("path", .text path)]⟩])

end Sequence

inductive Failure where
  | failed (reason : String)
  | panicked (reason : String)
  deriving DecidableEq, Repr

def Failure.event (phase : Phase) (path : String) : Failure → Log.Event
  | .failed reason =>
    ⟨.error, "hot callback failed",
      [("phase", .text phase.name), ("path", .text path), ("error", .text reason)]⟩
  | .panicked reason =>
    ⟨.error, "hot callback panicked",
      [("phase", .text phase.name), ("path", .text path), ("error", .text reason)]⟩

end ModuleHost.Hot
