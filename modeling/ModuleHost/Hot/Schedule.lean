import ModuleHost.Hot.Task

/-!
The order in which tasks go on. After every operation each task that has not ended goes on in turn
for as long as it can, until no task can do anything more. Tasks may keep each other going for ever,
so that all this is bounded by fuel.
-/

namespace ModuleHost.Hot

inductive Operation where
  | effect (effect : Effect Action)
  | start (command : Command Action)
  | cancel (task : Nat)

namespace World

/-- Lets a task go on for as long as it can, and says whether it did anything. -/
def goOn : Nat → World → Nat → World × Bool
  | 0, w, _ => (w, false)
  | fuel + 1, w, t =>
    match w.step t with
    | (w, .advanced) => ((goOn fuel w t).1, true)
    | (w, .paused) => (w, true)
    | (w, .waiting) => (w, false)

def pass : Nat → World → Nat → World × Bool
  | 0, w, _ => (w, false)
  | fuel + 1, w, t =>
    if t < w.tasks.length then
      let (w, changed) := w.goOn fuel t
      -- the length is read again, so tasks started meanwhile get their turn
      let (w, changedLater) := pass fuel w (t + 1)
      (w, changed || changedLater)
    else (w, false)

def settle : Nat → World → World
  | 0, w => w
  | fuel + 1, w =>
    match w.pass fuel 0 with
    | (w, true) => settle fuel w
    | (w, false) => w

def operate (w : World) : Operation → World × Answer
  | .effect effect => w.perform {} effect
  | .start command => w.start command
  | .cancel t => w.cancel t

/-- Carries out an operation with all that follows from it; the log then holds what came of it. -/
def run (fuel : Nat) (w : World) (operation : Operation) : World × Answer :=
  let (w, answer) := { w with log := [] }.operate operation
  (w.settle fuel, answer)

end World

end ModuleHost.Hot
