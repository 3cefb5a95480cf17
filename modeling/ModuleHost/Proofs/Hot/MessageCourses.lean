import Mathlib.Data.List.Permutation
import ModuleHost.Proofs.Hot.Handling

/-! The courses that the handling of a message can take. An update goes through the distinct
accepted paths and stops at the first one that cannot be loaded or has no context; a prune goes
through all of its paths. -/

namespace ModuleHost.Hot

open ModuleHost.Json

/-! ### Courses -/

inductive Updating : List String → List HostAct → Prop where
  | done : Updating [] [.decided .proceed]
  | updated (path : String) (version : Nat) {left : List String} {acts : List HostAct}
      (h : Updating left acts) : Updating (path :: left)
        (.invalidated path :: .loading path version :: .loaded path version ::
          .asked path (.update (some (loadedModule path version))) true ::
          .answered (.applied true) :: acts)
  | failed (path : String) (version : Nat) (left : List String) : Updating (path :: left)
      [.invalidated path, .loading path version, .failed path version, .decided .fullReload]
  | unregistered (path : String) (version : Nat) (left : List String) : Updating (path :: left)
      [.invalidated path, .loading path version, .loaded path version,
        .asked path (.update (some (loadedModule path version))) false,
        .answered (.applied false), .decided .fullReload]

inductive Pruning : List String → List HostAct → Prop where
  | done : Pruning [] [.decided .proceed]
  | pruned (path : String) (registered : Bool) {left : List String} {acts : List HostAct}
      (h : Pruning left acts) : Pruning (path :: left)
        (.invalidated path :: .asked path .prune registered :: .answered .pruned :: acts)

/-- All that the host may do about a message, from beginning to end. -/
def Message.Handling : Message → List HostAct → Prop
  | .update updates, acts => Updating (distinct (updates.map UpdateEntry.acceptedPath)) acts
  | .prune paths, acts => Pruning paths acts
  | .fullReload .., acts => acts = [.decided .fullReload]
  | .connected, acts | .ping, acts | .custom .., acts | .error _, acts =>
    acts = [.decided .proceed]

theorem exists_updating (paths : List String) : ∃ acts, Updating paths acts := by
  cases paths with
  | nil => exact ⟨_, .done⟩
  | cons path left => exact ⟨_, .failed path 0 left⟩

theorem exists_pruning (paths : List String) : ∃ acts, Pruning paths acts := by
  induction paths with
  | nil => exact ⟨_, .done⟩
  | cons path left ih => exact ih.elim fun _ h => ⟨_, .pruned path true h⟩

theorem Message.exists_handling (m : Message) : ∃ acts, m.Handling acts := by
  cases m with
  | update updates => exact exists_updating _
  | prune paths => exact exists_pruning _
  | _ => exact ⟨_, rfl⟩

theorem Updating.result {paths : List String} {acts : List HostAct} (h : Updating paths acts) :
    ∃ outcome, acts.getLast? = some (.decided outcome) ∧ (outcome = .fullReload ↔
      ∃ path, (∃ version, .failed path version ∈ acts) ∨ ∃ job, .asked path job false ∈ acts) := by
  induction h with
  | done => exact ⟨.proceed, rfl, by simp⟩
  | updated path version h ih =>
    obtain ⟨outcome, hlast, hiff⟩ := ih
    refine ⟨outcome, by simp [List.getLast?_cons, hlast], hiff.trans ?_⟩
    simp
  | failed path version left => exact ⟨.fullReload, rfl, by simp⟩
  | unregistered path version left => exact ⟨.fullReload, rfl, by simp⟩

theorem Pruning.result {paths : List String} {acts : List HostAct} (h : Pruning paths acts) :
    acts.getLast? = some (.decided .proceed) := by
  induction h with
  | done => rfl
  | pruned path registered h ih => simp [List.getLast?_cons, ih]

/-! ### Distinct paths -/

theorem distinct_snoc (paths : List String) (path : String) : Message.distinct (paths ++ [path]) =
    if path ∈ Message.distinct paths then Message.distinct paths
    else Message.distinct paths ++ [path] := by
  simp [Message.distinct]

theorem mem_distinct {paths : List String} {path : String} :
    path ∈ Message.distinct paths ↔ path ∈ paths := by
  induction paths using List.reverseRecOn generalizing path with
  | nil => simp [Message.distinct]
  | append_singleton paths last ih =>
    rw [distinct_snoc]
    split
    · rename_i hlast
      rw [ih] at hlast
      rw [ih, List.mem_append, List.mem_singleton]
      exact ⟨.inl, fun h => h.elim id fun heq => heq ▸ hlast⟩
    · rw [List.mem_append, ih, List.mem_append]

theorem distinct_pairwise (paths : List String) :
    (Message.distinct paths).Pairwise (paths.idxOf · < paths.idxOf ·) := by
  induction paths using List.reverseRecOn with
  | nil => simp [Message.distinct]
  | append_singleton paths last ih =>
    have hsame : ∀ p ∈ Message.distinct paths,
        (paths ++ [last]).idxOf p = paths.idxOf p :=
      fun p hp => List.idxOf_append_of_mem (mem_distinct.mp hp)
    have hbefore : (Message.distinct paths).Pairwise
        ((paths ++ [last]).idxOf · < (paths ++ [last]).idxOf ·) :=
      ih.imp_of_mem fun {a b} ha hb hlt => by rwa [hsame a ha, hsame b hb]
    rw [distinct_snoc]
    split
    · exact hbefore
    · rename_i hnew
      refine List.pairwise_append.mpr ⟨hbefore, List.pairwise_singleton _ _, fun p hp q hq => ?_⟩
      obtain rfl := List.mem_singleton.mp hq
      have hmem : p ∈ paths := mem_distinct.mp hp
      rw [hsame p hp, List.idxOf_append_of_notMem (fun h => hnew (mem_distinct.mpr h))]
      have hlt := List.idxOf_lt_length_of_mem hmem
      omega

/-! ### Where the host stands -/

/-- How far the host has come with a message. -/
inductive Position where
  | message (m : Message)
  | updating (paths : List String)
  | loading (path : String) (version : Nat) (left : List String)
  | loaded (path : String) (version : Nat) (left : List String)
  | applying (left : List String)
  | pruning (paths : List String)
  | asking (path : String) (left : List String)
  | disposing (left : List String)
  | decided (outcome : Outcome)
  | atEnd

/-- Some frames that are not the host's own stand on another one. -/
def Standing (frames : List Frame) (called : Frame → Prop) (p : Progress) : Prop :=
  ∃ above frame, (∀ f ∈ above, f.ofHost = false) ∧ called frame ∧
    frames = above ++ [frame, .progress p]

namespace Position

def At : Position → List Frame → Prop
  | message m, frames => frames = [.message m]
  | updating paths, frames => frames = [.progress (.updating paths)]
  | loading path version left, frames =>
    Standing frames (∃ scope actions, · = .script scope actions) (.loading path version left)
  | loaded path version left, frames => frames =
    [.request path (.update (some (loadedModule path version))), .progress (.applying left)]
  | applying left, frames =>
    Standing frames (∃ s, · = .sequence (.applied true) s) (.applying left)
  | pruning paths, frames => frames = [.progress (.pruning paths)]
  | asking path left, frames => frames = [.request path .prune, .progress (.pruning left)]
  | disposing left, frames => Standing frames (∃ s, · = .sequence .pruned s) (.pruning left)
  | decided outcome, frames => frames = [.progress (.decided outcome)]
  | atEnd, frames => frames = []

/-- What the host may still do. -/
def Ahead : Position → List HostAct → Prop
  | message m, acts => m.Handling acts
  | updating paths, acts => Updating paths acts
  | loading path version left, acts =>
    Updating (path :: left) (.invalidated path :: .loading path version :: acts)
  | loaded path version left, acts => Updating (path :: left)
    (.invalidated path :: .loading path version :: .loaded path version :: acts)
  | applying left, acts => ∃ rest, acts = .answered (.applied true) :: rest ∧ Updating left rest
  | pruning paths, acts => Pruning paths acts
  | asking path left, acts => Pruning (path :: left) (.invalidated path :: acts)
  | disposing left, acts => ∃ rest, acts = .answered .pruned :: rest ∧ Pruning left rest
  | decided outcome, acts => acts = [.decided outcome]
  | atEnd, acts => acts = []

theorem exists_ahead (position : Position) : ∃ acts, position.Ahead acts := by
  cases position with
  | message m => exact m.exists_handling
  | updating paths => exact exists_updating paths
  | loading path version left => exact ⟨_, .failed path version left⟩
  | loaded path version left => exact ⟨_, .unregistered path version left⟩
  | applying left => exact (exists_updating left).elim fun _ h => ⟨_, _, rfl, h⟩
  | pruning paths => exact exists_pruning paths
  | asking path left => exact (exists_pruning left).elim fun _ h => ⟨_, .pruned path true h⟩
  | disposing left => exact (exists_pruning left).elim fun _ h => ⟨_, _, rfl, h⟩
  | decided outcome => exact ⟨_, rfl⟩
  | atEnd => exact ⟨_, rfl⟩

theorem eq_atEnd {position : Position} (h : position.At []) : position = atEnd := by
  cases position with
  | atEnd => rfl
  | loading path version left => obtain ⟨above, frame, -, -, hnil⟩ := h; simp at hnil
  | applying left => obtain ⟨above, frame, -, -, hnil⟩ := h; simp at hnil
  | disposing left => obtain ⟨above, frame, -, -, hnil⟩ := h; simp at hnil
  | _ => cases h

/-- One position is left for another, and what is done meanwhile is done in front of whatever may
follow there. -/
def Onward (position : Position) (frames : List Frame) (acts : List HostAct) : Prop :=
  ∃ next : Position, next.At frames ∧ ∀ rest, next.Ahead rest → position.Ahead (acts ++ rest)

theorem Onward.stay {position : Position} {frames : List Frame} (h : position.At frames) :
    position.Onward frames [] := ⟨position, h, fun _ => id⟩

theorem atEnd_onward : atEnd.Onward [] [] := ⟨atEnd, rfl, fun _ => id⟩

end Position

section

variable {w : World} {t : Nat} {p : Progress} {frames : List Frame} {acts : List HostAct}
  {path : String} {version : Nat} {left : List String}

theorem loading_over {scope : Scope} {actions : List Action}
    (h : Over w (.script scope actions) (.loading path version left) frames acts) :
    (Position.loading path version left).Onward frames acts := by
  cases h with
  | stays guests next hg follows hands =>
    cases follows
    exact .stay ⟨guests, _, hg, ⟨_, _, rfl⟩, rfl⟩
  | goes returned hands =>
    obtain ⟨failure, -, rfl⟩ := Option.map_eq_some_iff.mp hands
    cases failure with
    | none => exact ⟨.loaded path version left, rfl, fun _ => id⟩
    | some failure =>
      refine ⟨.decided .fullReload, by cases failure <;> rfl, ?_⟩
      rintro rest rfl
      cases failure <;> exact .failed path version left

theorem loaded_over (h : Over w (.request path (.update (some (loadedModule path version))))
    (.applying left) frames acts) : (Position.loaded path version left).Onward frames acts := by
  rcases h.request with ⟨guests, s, hg, rfl, rfl⟩ | ⟨rfl, rfl⟩ | ⟨rfl, rfl⟩
  · refine ⟨.applying left, ⟨guests, _, hg, ⟨s, rfl⟩, rfl⟩, ?_⟩
    rintro _ ⟨rest, rfl, hrest⟩
    exact .updated path version hrest
  · exact ⟨.updating left, rfl, fun rest hrest => .updated path version hrest⟩
  · refine ⟨.decided .fullReload, rfl, ?_⟩
    rintro rest rfl
    exact .unregistered path version left

theorem asking_over (h : Over w (.request path .prune) (.pruning left) frames acts) :
    (Position.asking path left).Onward frames acts := by
  rcases h.request with ⟨guests, s, hg, rfl, rfl⟩ | ⟨rfl, rfl⟩ | ⟨rfl, rfl⟩
  · refine ⟨.disposing left, ⟨guests, _, hg, ⟨s, rfl⟩, rfl⟩, ?_⟩
    rintro _ ⟨rest, rfl, hrest⟩
    exact .pruned path true hrest
  · exact ⟨.pruning left, rfl, fun rest hrest => .pruned path true hrest⟩
  · exact ⟨.pruning left, rfl, fun rest hrest => .pruned path false hrest⟩

theorem sequence_over {answer : Returned} {s : Running}
    (h : Over w (.sequence answer s) p frames acts) :
    (Standing frames (∃ s, · = .sequence answer s) p ∧ acts = []) ∨
      frames = (w.advanceEvent p answer).2 ∧ acts = [p.reply answer] := by
  cases h with
  | stays guests next hg follows hands =>
    cases follows
    exact .inl ⟨⟨guests, _, hg, ⟨_, rfl⟩, rfl⟩, rfl⟩
  | goes returned hands =>
    have heq : answer = returned := by
      simp only [World.handsDown] at hands
      split at hands
      · exact Option.some.inj hands
      · cases hands
    obtain rfl := heq
    exact .inr ⟨rfl, rfl⟩

theorem applying_over {s : Running}
    (h : Over w (.sequence (.applied true) s) (.applying left) frames acts) :
    (Position.applying left).Onward frames acts := by
  rcases sequence_over h with ⟨hstanding, rfl⟩ | ⟨rfl, rfl⟩
  · exact .stay hstanding
  · exact ⟨.updating left, rfl, fun rest hrest => ⟨rest, rfl, hrest⟩⟩

theorem disposing_over {s : Running}
    (h : Over w (.sequence .pruned s) (.pruning left) frames acts) :
    (Position.disposing left).Onward frames acts := by
  rcases sequence_over h with ⟨hstanding, rfl⟩ | ⟨rfl, rfl⟩
  · exact .stay hstanding
  · exact ⟨.pruning left, rfl, fun rest hrest => ⟨rest, rfl, hrest⟩⟩

def Stepped (w : World) (t : Nat) (position : Position) : Prop :=
  ∃ frames, (w.step t).1.tasks[t]? = some frames ∧ position.Onward frames (w.hostActs t)

/-- It is enough to know what becomes of the frame that was called when nothing stands on it. -/
theorem Standing.stepped {position : Position} {called : Frame → Prop}
    (hstanding : Standing frames called p) (ht : w.tasks[t]? = some frames)
    (hat : ∀ frames, Standing frames called p → position.At frames)
    (hcalled : ∀ frame, called frame → frame.ofHost = false)
    (hover : ∀ frame frames acts, called frame → Over w frame p frames acts →
      position.Onward frames acts) : Stepped w t position := by
  obtain ⟨above, frame, habove, hframe, rfl⟩ := hstanding
  cases above with
  | nil =>
    obtain ⟨frames, hframes, h⟩ := World.step_called ht (hcalled frame hframe)
    exact ⟨frames, hframes, hover frame frames _ hframe h⟩
  | cons top above =>
    obtain ⟨guests, hguests, hframes, hacts⟩ := World.step_above ht habove (hcalled frame hframe)
    refine ⟨_, hframes, ?_⟩
    rw [hacts]
    exact .stay (hat _ ⟨guests, frame, hguests, hframe, rfl⟩)

/-! ### The host's own frames -/

theorem message_stepped {m : Message} (ht : w.tasks[t]? = some [.message m]) :
    Stepped w t (.message m) := by
  have hstep := World.step_eq ht
  have htells : w.Tells t (w.step t).1 [] := by
    rw [hstep]
    exact (World.Tells.refl.report m.events).setFrames t _
  refine ⟨_, by rw [hstep]; exact World.getElem?_set ht, ?_⟩
  rw [World.hostActs_eq htells ht]
  cases m with
  | update updates =>
    by_cases hempty : Message.distinct (updates.map UpdateEntry.acceptedPath) = []
    · refine ⟨.decided .proceed, by simp [Position.At, Message.hostEvent?, hempty], ?_⟩
      rintro rest rfl
      show Updating _ _
      rw [hempty]
      exact .done
    · refine ⟨.updating _, ?_, fun rest => id⟩
      simp [Position.At, Message.hostEvent?, hempty, World.Progress.ofEvent]
  | prune paths =>
    by_cases hempty : paths = []
    · subst hempty
      refine ⟨.decided .proceed, rfl, ?_⟩
      rintro rest rfl
      exact .done
    · refine ⟨.pruning _, ?_, fun rest => id⟩
      simp [Position.At, Message.hostEvent?, hempty, World.Progress.ofEvent]
  | fullReload path triggeredBy => exact ⟨.decided .fullReload, rfl, fun rest => id⟩
  | _ => exact ⟨.decided .proceed, rfl, fun rest => id⟩

theorem decided_stepped {outcome : Outcome} {position : Position}
    (ht : w.tasks[t]? = some [.progress p])
    (hstep : (w.step t).1 = w.leave t [] (.decided outcome))
    (hreplies : w.replies [.progress p] = []) (hahead : position.Ahead [.decided outcome]) :
    Stepped w t position := by
  have htells : w.Tells t (w.step t).1 [.decided outcome] := by
    rw [hstep]
    have hdone := (World.Tells.refl.setFrames t []).record (w := w) (t := t)
      (.done t (.decided outcome))
    simpa [Entry.hostAct?, World.leave] using hdone
  refine ⟨[], by rw [hstep]; exact World.getElem?_set ht, ?_⟩
  rw [World.hostActs_eq htells ht, hreplies]
  refine ⟨.atEnd, rfl, ?_⟩
  rintro rest rfl
  exact hahead

theorem updating_stepped {paths : List String} (ht : w.tasks[t]? = some [.progress (.updating paths)]) :
    Stepped w t (.updating paths) := by
  have hstep := World.step_eq ht
  cases paths with
  | nil => exact decided_stepped ht hstep rfl .done
  | cons path left =>
    let version := World.latest w.versions path + 1
    let waiting : Frame := .progress (.loading path version left)
    -- the world in which the load begins
    let u := World.record { (w.report [⟨.info, "hot update", [("path", .text path)]⟩]).record
      (.invalidated path) with versions := (path, version) :: w.versions } (.loaded path version)
    have hbegun : w.Tells t u [.invalidated path, .loading path version] :=
      ((World.Tells.refl.report _).record (.invalidated path)).record (.loaded path version)
    have htasks : u.tasks = w.tasks := rfl
    cases hfind : w.modules.find? (·.1 = path) with
    | some module =>
      have hload : (w.step t).1 = u.setFrames t [.script {} module.2, waiting] := by
        rw [hstep]
        simp only [World.stepFrame, World.advanceProgress, World.load, World.record, World.report,
          hfind]
        rfl
      have htells : w.Tells t (w.step t).1 [.invalidated path, .loading path version] :=
        hload ▸ hbegun.setFrames t _
      refine ⟨[.script {} module.2, waiting], ?_, ?_⟩
      · rw [hload, World.setFrames_tasks, htasks]
        exact World.getElem?_set ht
      · have hreplies : w.replies [.progress (.updating (path :: left))] = [] := by
          simp [World.replies, hfind]
        rw [World.hostActs_eq htells ht, hreplies]
        exact ⟨.loading path version left, ⟨[], _, by simp, ⟨{}, module.2, rfl⟩, rfl⟩, fun _ => id⟩
    | none =>
      have hload : (w.step t).1 =
          u.leave t [waiting] (.finished (some (.failed ("no module " ++ path)))) := by
        rw [hstep]
        simp only [World.stepFrame, World.advanceProgress, World.load, World.record, World.report,
          hfind]
        rfl
      have htells : w.Tells t (w.step t).1 [.invalidated path, .loading path version] :=
        hload ▸ (hbegun.trans (World.tells_leave t _ (by simp)))
      refine ⟨[.progress (.decided .fullReload)], ?_, ?_⟩
      · rw [hload, World.leave_progress, htasks]
        exact World.getElem?_set ht
      · have hreplies : w.replies [.progress (.updating (path :: left))] = [.failed path version] := by
          simp [World.replies, hfind, version]
        rw [World.hostActs_eq htells ht, hreplies]
        refine ⟨.decided .fullReload, rfl, ?_⟩
        rintro rest rfl
        exact .failed path version left

theorem pruning_stepped {paths : List String} (ht : w.tasks[t]? = some [.progress (.pruning paths)]) :
    Stepped w t (.pruning paths) := by
  have hstep := World.step_eq ht
  cases paths with
  | nil => exact decided_stepped ht hstep rfl .done
  | cons path left =>
    have htells : w.Tells t (w.step t).1 [.invalidated path] := by
      rw [hstep]
      exact (World.Tells.refl.record (.invalidated path)).setFrames t _
    refine ⟨[.request path .prune, .progress (.pruning left)], ?_, ?_⟩
    · rw [hstep]
      exact World.getElem?_set ht
    · rw [World.hostActs_eq htells ht]
      exact ⟨.asking path left, rfl, fun rest => id⟩

theorem Position.stepped {position : Position} (hat : position.At frames)
    (ht : w.tasks[t]? = some frames) : Stepped w t position := by
  cases position with
  | message m =>
    subst hat
    exact message_stepped ht
  | updating paths =>
    subst hat
    exact updating_stepped ht
  | pruning paths =>
    subst hat
    exact pruning_stepped ht
  | loading path version left =>
    refine Standing.stepped hat ht (fun _ => id) ?_ ?_
    · rintro frame ⟨scope, actions, rfl⟩
      rfl
    · rintro frame frames acts ⟨scope, actions, rfl⟩ hover
      exact loading_over hover
  | applying left =>
    refine Standing.stepped hat ht (fun _ => id) ?_ ?_
    · rintro frame ⟨s, rfl⟩
      rfl
    · rintro frame frames acts ⟨s, rfl⟩ hover
      exact applying_over hover
  | disposing left =>
    refine Standing.stepped hat ht (fun _ => id) ?_ ?_
    · rintro frame ⟨s, rfl⟩
      rfl
    · rintro frame frames acts ⟨s, rfl⟩ hover
      exact disposing_over hover
  | loaded path version left =>
    subst hat
    obtain ⟨frames, hframes, hover⟩ := World.step_called ht rfl
    exact ⟨frames, hframes, loaded_over hover⟩
  | asking path left =>
    subst hat
    obtain ⟨frames, hframes, hover⟩ := World.step_called ht rfl
    exact ⟨frames, hframes, asking_over hover⟩
  | decided outcome =>
    subst hat
    exact decided_stepped ht (World.step_eq ht) rfl rfl
  | atEnd =>
    subst hat
    have hstep : (w.step t).1 = w := by simp [World.step, ht]
    refine ⟨[], by rw [hstep, ht], ?_⟩
    rw [World.hostActs_eq (.same (congrArg World.log hstep)) ht]
    exact Position.atEnd_onward

end

namespace World

variable {w : World} {t : Nat} {frames : List Frame}

theorem turn_others {turn : Turn} (hw : w.WellStacked) (ht : w.tasks[t]? = some frames)
    (hstep : turn ≠ .step t) (hcancel : turn ≠ .operate (.cancel t)) :
    (w.turn turn).tasks[t]? = some frames := by
  obtain ⟨hlt, -⟩ := List.getElem?_eq_some_iff.mp ht
  have hkept : ∀ added u, u ≠ t → ∀ frames', ((w.tasks ++ added).set u frames')[t]? =
      some frames := fun added u hne frames' => by
    rw [List.getElem?_set_ne hne, List.getElem?_append_left hlt, ht]
  cases turn with
  | step u =>
    have hne : u ≠ t := fun heq => hstep (heq ▸ rfl)
    simp only [World.turn, step]
    split
    · rename_i frame below hu
      have hstacked := hw _ (List.mem_of_getElem? hu)
      obtain ⟨added, frames', htasks, -⟩ := stepFrame_moved w u frame below hu hstacked
      rw [htasks]
      exact hkept added u hne frames'
    · exact ht
  | operate operation =>
    cases operation with
    | effect effect =>
      simp only [World.turn, operate, perform_tasks]
      exact ht
    | start command =>
      obtain ⟨-, added, htasks, -⟩ := w.start_spec command
      simp only [World.turn, operate, htasks]
      rw [List.getElem?_append_left hlt, ht]
    | cancel u =>
      have hne : u ≠ t := fun heq => hcancel (heq ▸ rfl)
      simp only [World.turn, operate, cancel]
      split
      · simpa using hkept [] u hne []
      · exact ht

theorem cancel_self (ht : w.tasks[t]? = some frames) :
    (w.turn (.operate (.cancel t))).tasks[t]? = some [] := by
  cases frames with
  | nil =>
    simp only [World.turn, operate, cancel, ht]
  | cons frame below =>
    simp only [World.turn, operate, cancel, ht]
    exact getElem?_set ht

/-- From wherever the host stands, what it does is a beginning of what it may do, and the whole of
it once its task has come to its end. -/
theorem handling_ahead (turns : List Turn) {position : Position} (hw : w.WellStacked)
    (ht : w.tasks[t]? = some frames) (hat : position.At frames) :
    ∃ course, position.Ahead course ∧ w.handling t turns <+: course ∧
      (.operate (.cancel t) ∉ turns → (w.after turns).tasks[t]? = some [] →
        w.handling t turns = course) := by
  -- the position moves with the steps of the task itself; the turns of others leave it where it is
  induction turns generalizing w frames position with
  | nil =>
    obtain ⟨course, hcourse⟩ := position.exists_ahead
    refine ⟨course, hcourse, List.nil_prefix, fun _ hover => ?_⟩
    obtain rfl : frames = [] := Option.some.inj (ht.symm.trans hover)
    obtain rfl := Position.eq_atEnd hat
    exact hcourse.symm
  | cons turn turns ih =>
    have hw' := (turn_changes w turn hw).2
    by_cases hstep : turn = .step t
    · subst hstep
      obtain ⟨frames', ht', next, hat', honward⟩ := Position.stepped hat ht
      obtain ⟨rest, hrest, hprefix, hwhole⟩ := ih hw' ht' hat'
      have hhandling : w.handling t (.step t :: turns) =
          w.hostActs t ++ (w.turn (.step t)).handling t turns := by simp [handling]
      refine ⟨_, honward rest hrest, ?_, fun hkept hover => ?_⟩
      · rw [hhandling]
        exact (List.prefix_append_right_inj _).mpr hprefix
      · rw [hhandling, hwhole (fun hmem => hkept (List.mem_cons_of_mem _ hmem)) hover]
    · -- the turns of others, and the cancellation of the task, are no acts of the host
      have hhandling : w.handling t (turn :: turns) = (w.turn turn).handling t turns := by
        cases turn with
        | step u =>
          have hne : u ≠ t := fun heq => hstep (heq ▸ rfl)
          simp [handling, hne]
        | operate operation => rfl
      rw [hhandling]
      by_cases hcancel : turn = .operate (.cancel t)
      · subst hcancel
        have hover : Position.atEnd.At [] := rfl
        obtain ⟨rest, rfl, hprefix, -⟩ := ih hw' (cancel_self ht) hover
        obtain ⟨course, hcourse⟩ := position.exists_ahead
        refine ⟨course, hcourse, hprefix.trans List.nil_prefix, fun hkept => ?_⟩
        exact absurd List.mem_cons_self hkept
      · obtain ⟨course, hcourse, hprefix, hwhole⟩ :=
          ih hw' (turn_others hw ht hstep hcancel) hat
        exact ⟨course, hcourse, hprefix,
          fun hkept => hwhole fun hmem => hkept (List.mem_cons_of_mem _ hmem)⟩

/-- Whatever has happened before, whatever the modules do when they are loaded and whatever goes on
at the same time, what the host does about a message is a beginning of a course that the message
allows, and the whole of it once the task has come to its end. For an update the course goes through
the distinct accepted paths in the order of their first occurrence, and its result is a full reload
exactly if it stops at a path that could not be loaded or had no context after its load. -/
theorem message_handled (modules : List (String × List Action)) (before turns : List Turn)
    (m : Message) :
    let w := (initial modules).after before
    let t := w.tasks.length
    let begun := (w.addTask (.message m)).1
    ∃ course outcome, m.Handling course ∧ course.getLast? = some (.decided outcome) ∧
      begun.handling t turns <+: course ∧
      (.operate (.cancel t) ∉ turns → (begun.after turns).tasks[t]? = some [] →
        begun.handling t turns = course) ∧
      (∀ updates, m = .update updates →
        let accepted := updates.map UpdateEntry.acceptedPath
        (∀ path, path ∈ Message.distinct accepted ↔ path ∈ accepted) ∧
        (Message.distinct accepted).Pairwise (accepted.idxOf · < accepted.idxOf ·) ∧
        (outcome = .fullReload ↔ ∃ path,
          (∃ version, .failed path version ∈ course) ∨ ∃ job, .asked path job false ∈ course)) ∧
      ∀ paths, m = .prune paths → outcome = .proceed := by
  intro w t begun
  have hw : w.WellStacked := after_wellStacked modules before
  have hbegun : begun.WellStacked := by
    intro frames hmem
    rcases List.mem_append.mp hmem with hold | hnew
    · exact hw frames hold
    · obtain rfl := List.mem_singleton.mp hnew
      exact List.isChain_singleton _
  have ht : begun.tasks[t]? = some [.message m] := by simp [begun, addTask, t]
  have hat : (Position.message m).At [.message m] := rfl
  obtain ⟨course, hcourse, hprefix, hwhole⟩ := handling_ahead turns hbegun ht hat
  cases m with
  | update updates =>
    obtain ⟨outcome, hlast, hiff⟩ := Updating.result hcourse
    refine ⟨course, outcome, hcourse, hlast, hprefix, hwhole, fun _ h => ?_, fun _ h => ?_⟩
    · cases h
      exact ⟨fun path => mem_distinct, distinct_pairwise _, hiff⟩
    · cases h
  | prune paths =>
    refine ⟨course, .proceed, hcourse, Pruning.result hcourse, hprefix, hwhole, fun _ h => ?_,
      fun _ _ => rfl⟩
    cases h
  | fullReload path triggeredBy =>
    obtain rfl := hcourse
    refine ⟨_, .fullReload, rfl, rfl, hprefix, hwhole, fun _ h => ?_, fun _ h => ?_⟩
    · cases h
    · cases h
  | _ =>
    obtain rfl := hcourse
    refine ⟨_, .proceed, rfl, rfl, hprefix, hwhole, fun _ h => ?_, fun _ _ => rfl⟩
    cases h

def failingModules : List (String × List Action) :=
  [("/a", [.effect (.create "/a" none)]), ("/b", [.fail "broken"]), ("/c", [])]

def updateEntry (path : String) : UpdateEntry := ⟨.js, path, path, 0⟩

def failingUpdate : Message :=
  .update (["/a", "/b", "/a", "/c"].map updateEntry)

theorem message_handled_failingUpdate :
    let begun := ((initial failingModules).addTask (.message failingUpdate)).1
    let turns := List.replicate 12 (.step 0)
    (begun.after turns).tasks[0]? = some [] ∧
    failingUpdate.Handling (begun.handling 0 turns) ∧
    begun.handling 0 turns =
      [.invalidated "/a", .loading "/a" 1, .loaded "/a" 1,
        .asked "/a" (.update (some (loadedModule "/a" 1))) true, .answered (.applied true),
        .invalidated "/b", .loading "/b" 1, .failed "/b" 1, .decided .fullReload] := by
  intro begun turns
  have hover : (begun.after turns).tasks[0]? = some [] := by cbv
  have hkept : .operate (.cancel 0) ∉ turns := by simp [turns]
  obtain ⟨course, outcome, hcourse, -, -, hwhole, -⟩ :=
    message_handled failingModules [] turns failingUpdate
  have heq : begun.handling 0 turns = course := hwhole hkept hover
  exact ⟨hover, heq ▸ hcourse, by cbv⟩

end World

end ModuleHost.Hot
