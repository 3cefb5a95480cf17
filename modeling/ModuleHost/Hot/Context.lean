import ModuleHost.Json.Print
import ModuleHost.Log

/-!
Hot contexts. A context belongs to one module path and outlives the instances of that module: it
holds the callbacks they register, the data they share, and the requests that wait while a sequence
of callbacks is running. `α` stands for callbacks and `μ` for instances of modules.
-/

namespace ModuleHost.Hot

open ModuleHost.Json

structure Data where
  entries : List (String × Value) := []

namespace Data

def get? (d : Data) (key : String) : Option Value :=
  (d.entries.find? (·.1 = key)).map Prod.snd

def insert (d : Data) (key : String) (value : Value) : Data :=
  ⟨insertEntry key value d.entries⟩

def erase (d : Data) (key : String) : Data :=
  ⟨d.entries.filter (·.1 ≠ key)⟩

def size (d : Data) : Nat :=
  d.entries.length

def display (d : Data) : String :=
  "HotData(\x7b" ++ Value.displayEntries d.entries ++ "\x7d)"

end Data

/-- A sequence that is asked for: an update to a new instance, which may be unknown, or a prune. -/
inductive Job (μ : Type) where
  | update (module : Option μ)
  | prune

structure Context (α μ : Type) where
  path : String
  accepts : List α := []
  disposes : List α := []
  selfAccepted : Bool := false
  data : Data := {}
  generation : Nat := 0
  busy : Bool := false
  queue : List (Job μ) := []

namespace Context

variable {α μ : Type}

/-- Prepares the context for a new instance: the callbacks that accept updates are those of the old
one and go, all else stays. -/
def handOut (c : Context α μ) : Context α μ :=
  { c with accepts := [], generation := c.generation + 1 }

def flag (b : Bool) : String :=
  if b then "true" else "false"

def display (c : Context α μ) : String :=
  "HotModule \x7b path: " ++ Text.escaped c.path ++
    ", accept_callbacks: " ++ toString c.accepts.length ++
    ", dispose_callbacks: " ++ toString c.disposes.length ++
    ", self_accepted: " ++ flag c.selfAccepted ++
    ", data: " ++ c.data.display ++ " \x7d"

end Context

end ModuleHost.Hot
