import ModuleHost.Hot.Schedule

/-! Runs of the world and what they do to hot contexts. A run is any list of turns: operations from
outside and single steps of tasks, in any order. Its history lists what becomes of contexts and of
the sequences that hold them, read off the world as each turn finds it. -/

namespace ModuleHost.Hot

open ModuleHost.Json

inductive Turn where
  | operate (operation : Operation)
  | step (task : Nat)

abbrev Running := Sequence (Callback Action) Value

structure Flight where
  calling : Bool
  sequence : Running

def Flight.context (f : Flight) : Nat := f.sequence.context

/-- The sequences that some frames hold; one below another frame has called it. -/
def flightsIn (calling : Bool) : List Frame → List Flight
  | [] => []
  | .sequence _ s :: below => ⟨calling, s⟩ :: flightsIn true below
  | _ :: below => flightsIn true below

inductive Happening where
  | made (id : Nat) (path : String)
  | reused (id : Nat)
  | accepts (id : Nat) (callback : Callback Action)
  | disposes (id : Nat) (callback : Callback Action)
  | marked (id : Nat)
  | wrote (id : Nat)
  | asked (id : Nat) (job : Job Value)
  | begun (id : Nat) (job : Job Value)
  | called (id : Nat) (phase : Phase) (callback : Callback Action) (module : Option Value)
  | returned (id : Nat) (phase : Phase)
  | turned (id : Nat)
  | ended (id : Nat) (job : Job Value)
  | dropped (id : Nat)

theorem filterMap_snoc {β : Type} (f : Happening → Option β) (hs : List Happening) (h : Happening) :
    (hs ++ [h]).filterMap f = hs.filterMap f ++ (f h).toList := by
  rw [List.filterMap_append]
  cases hf : f h <;> simp [hf]

def Sequence.happening (s : Running) : Happening :=
  match s.stage with
  | .starting job => .begun s.context job
  | .disposing _ (callback :: _) => .called s.context .dispose callback none
  | .disposing (.update _) [] => .turned s.context
  | .disposing .prune [] => .ended s.context .prune
  | .accepting module _ _ (callback :: _) => .called s.context .accept callback module
  | .accepting module _ _ [] => .ended s.context (.update module)

namespace World

def initial (modules : List (String × List Action)) : World := { modules }

def flights (w : World) : List Flight := w.tasks.flatMap (flightsIn false)

def turn (w : World) : Turn → World
  | .operate operation => (w.operate operation).1
  | .step t => (w.step t).1

def after (w : World) (turns : List Turn) : World := turns.foldl turn w

def dataOf? (w : World) (scope : Scope) (handle : Option String) : Option Nat :=
  match handle, scope.data with
  | none, some id => some id
  | handle, _ => w.handle? (handle.getD "")

def effectHappenings (w : World) (scope : Scope) : Effect Action → List Happening
  | .create path _ =>
    match w.registry.find? path with
    | some id => [.reused id]
    | none => [.made w.registry.contexts.length path]
  | .accept handle callback => (w.handle? handle).toList.map fun id => .accepts id callback
  | .dispose handle callback => (w.handle? handle).toList.map fun id => .disposes id callback
  | .acceptSelf handle => (w.handle? handle).toList.map .marked
  | .set handle _ _ | .delete handle _ => (w.dataOf? scope handle).toList.map .wrote
  | _ => []

/-- What a task does next. A callback has returned when its script, which stands on the sequence
that called it, has come to an end. -/
def stepHappenings (w : World) : List Frame → List Happening
  | .script _ [] :: .sequence _ s :: _ => [.returned s.context s.phase]
  | .script _ (.fail _ :: _) :: .sequence _ s :: _ => [.returned s.context s.phase]
  | .script _ (.panic _ :: _) :: .sequence _ s :: _ => [.returned s.context s.phase]
  | .script scope (.effect effect :: _) :: _ => w.effectHappenings scope effect
  | .request path job :: _ => (w.registry.find? path).toList.map fun id => .asked id job
  | .sequence _ s :: _ => [s.happening]
  | _ => []

def happenings (w : World) : Turn → List Happening
  | .operate (.effect effect) => w.effectHappenings {} effect
  | .operate (.start _) => []
  | .operate (.cancel t) =>
    (flightsIn false ((w.tasks[t]?).getD [])).map fun f => .dropped f.context
  | .step t => w.stepHappenings ((w.tasks[t]?).getD [])

/-- All that has happened to contexts in a run. -/
def history (w : World) : List Turn → List Happening
  | [] => []
  | turn :: turns => w.happenings turn ++ (w.turn turn).history turns

/-- No sequence is dropped with its task. -/
def Undropped (w : World) (turns : List Turn) : Prop := ∀ id, .dropped id ∉ w.history turns

theorem effectHappenings_not_dropped (w : World) (scope : Scope) (effect : Effect Action)
    (id : Nat) : .dropped id ∉ w.effectHappenings scope effect := by
  cases effect with
  | create path handle =>
    rw [effectHappenings]
    split <;> simp
  | _ => simp [effectHappenings]

theorem stepHappenings_not_dropped (w : World) (frames : List Frame) (id : Nat) :
    .dropped id ∉ w.stepHappenings frames := by
  unfold stepHappenings
  split
  · simp
  · simp
  · simp
  · exact w.effectHappenings_not_dropped _ _ id
  · simp
  · rename_i s below
    rw [List.mem_singleton]
    unfold Sequence.happening
    split <;> simp
  · simp

theorem undropped_of_uncancelled (w : World) (turns : List Turn)
    (h : ∀ t, .operate (.cancel t) ∉ turns) : w.Undropped turns := by
  intro id
  induction turns generalizing w with
  | nil => simp [history]
  | cons turn turns ih =>
    have hlater := ih (w.turn turn) fun t hmem => h t (List.mem_cons_of_mem _ hmem)
    have hnow : .dropped id ∉ w.happenings turn := by
      cases turn with
      | step t => exact w.stepHappenings_not_dropped _ id
      | operate operation =>
        cases operation with
        | effect effect => exact w.effectHappenings_not_dropped _ _ id
        | start command => simp [happenings]
        | cancel t => exact absurd List.mem_cons_self (h t)
    rw [history, List.mem_append, not_or]
    exact ⟨hnow, hlater⟩

theorem after_append (w : World) (as bs : List Turn) :
    w.after (as ++ bs) = (w.after as).after bs := List.foldl_append

theorem history_append (w : World) (as bs : List Turn) :
    w.history (as ++ bs) = w.history as ++ (w.after as).history bs := by
  induction as generalizing w with
  | nil => rfl
  | cons turn as ih =>
    rw [List.cons_append, history, history, ih, List.append_assoc]
    rfl

theorem goOn_eq_after (fuel : Nat) (w : World) (t : Nat) :
    ∃ turns, (w.goOn fuel t).1 = w.after turns := by
  induction fuel generalizing w with
  | zero => exact ⟨[], rfl⟩
  | succ fuel ih =>
    obtain ⟨turns, h⟩ := ih (w.step t).1
    rcases hm : w.step t with ⟨w', move⟩
    cases move with
    | advanced =>
      refine ⟨.step t :: turns, ?_⟩
      rw [hm] at h
      simpa [goOn, hm, after, turn] using h
    | paused => exact ⟨[.step t], by simp [goOn, hm, after, turn]⟩
    | waiting => exact ⟨[.step t], by simp [goOn, hm, after, turn]⟩

theorem pass_eq_after (fuel : Nat) (w : World) (t : Nat) :
    ∃ turns, (w.pass fuel t).1 = w.after turns := by
  induction fuel generalizing w t with
  | zero => exact ⟨[], rfl⟩
  | succ fuel ih =>
    unfold pass
    split
    · obtain ⟨first, hfirst⟩ := goOn_eq_after fuel w t
      obtain ⟨more, hmore⟩ := ih (w.goOn fuel t).1 (t + 1)
      refine ⟨first ++ more, ?_⟩
      rw [after_append, ← hfirst]
      exact hmore
    · exact ⟨[], rfl⟩

theorem settle_eq_after (fuel : Nat) (w : World) : ∃ turns, w.settle fuel = w.after turns := by
  induction fuel generalizing w with
  | zero => exact ⟨[], rfl⟩
  | succ fuel ih =>
    obtain ⟨first, hfirst⟩ := pass_eq_after fuel w 0
    obtain ⟨more, hmore⟩ := ih (w.pass fuel 0).1
    rcases hp : w.pass fuel 0 with ⟨w', changed⟩
    rw [hp] at hfirst hmore
    cases changed with
    | true => exact ⟨first ++ more, by simp [settle, hp, after_append, ← hfirst, ← hmore]⟩
    | false => exact ⟨first, by simpa [settle, hp] using hfirst⟩

theorem run_eq_after (fuel : Nat) (w : World) (operation : Operation) :
    ∃ turns, (w.run fuel operation).1 =
      { w with log := [] }.after (.operate operation :: turns) := by
  obtain ⟨turns, h⟩ := settle_eq_after fuel ({ w with log := [] }.operate operation).1
  exact ⟨turns, h⟩

end World

end ModuleHost.Hot
