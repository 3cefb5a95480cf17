import ModuleHost.Hot.Context

/-!
The registry of hot contexts. Every context that was ever made keeps its number, so that a handle on
it stays good; a path names at most one of them at a time.
-/

namespace ModuleHost.Hot

structure Registry (α μ : Type) where
  contexts : List (Context α μ) := []
  registered : List (String × Nat) := []

namespace Registry

variable {α μ : Type}

def context? (r : Registry α μ) (id : Nat) : Option (Context α μ) :=
  r.contexts[id]?

def find? (r : Registry α μ) (path : String) : Option Nat :=
  (r.registered.find? (·.1 = path)).map Prod.snd

def contains (r : Registry α μ) (path : String) : Bool :=
  (r.find? path).isSome

def size (r : Registry α μ) : Nat :=
  r.registered.length

def paths (r : Registry α μ) : List String :=
  (r.registered.map Prod.fst).mergeSort fun a b => decide (a ≤ b)

def modify (r : Registry α μ) (id : Nat) (f : Context α μ → Context α μ) : Registry α μ :=
  { r with contexts := r.contexts.modify id f }

/-- The context for a path: the registered one, handed out again, or a new one. -/
def create (r : Registry α μ) (path : String) : Nat × Registry α μ × List Log.Event :=
  match r.find? path with
  | some id =>
    (id, r.modify id Context.handOut, [⟨.debug, "reusing hot context", [("path", .text path)]⟩])
  | none =>
    let id := r.contexts.length
    (id,
      { contexts := r.contexts ++ [{ path }], registered := (path, id) :: r.registered },
      [⟨.debug, "created hot context", [("path", .text path)]⟩])

/-- Takes the registration of a path away, provided that it is that of the given context. -/
def unregister (r : Registry α μ) (path : String) (id : Nat) : Registry α μ :=
  { r with registered := r.registered.filter fun e => !(e.1 = path && e.2 = id) }

def addAccept (r : Registry α μ) (id : Nat) (callback : α) : Registry α μ :=
  r.modify id fun c => { c with accepts := c.accepts ++ [callback] }

def addDispose (r : Registry α μ) (id : Nat) (callback : α) : Registry α μ :=
  r.modify id fun c => { c with disposes := c.disposes ++ [callback] }

def acceptSelf (r : Registry α μ) (id : Nat) : Registry α μ :=
  r.modify id fun c => { c with selfAccepted := true }

def setData (r : Registry α μ) (id : Nat) (f : Data → Data) : Registry α μ :=
  r.modify id fun c => { c with data := f c.data }

def setBusy (r : Registry α μ) (id : Nat) (busy : Bool) : Registry α μ :=
  r.modify id fun c => { c with busy }

def enqueue (r : Registry α μ) (id : Nat) (job : Job μ) : Registry α μ :=
  r.modify id fun c => { c with queue := c.queue ++ [job] }

end Registry

end ModuleHost.Hot
