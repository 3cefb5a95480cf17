import Mathlib.Data.List.Chain
import ModuleHost.Proofs.Hot.History

/-! Everything a turn can do to the registry and to the sequences in flight. `Change` has one case
for each happening, and `turn_changes` says that a turn makes exactly the changes of its
happenings. -/

namespace ModuleHost.Hot

open ModuleHost.Json

/-- The part of the world that hot contexts depend on. -/
structure Scene where
  registry : Contexts
  flights : List Flight

def World.scene (w : World) : Scene := ⟨w.registry, w.flights⟩

inductive Change : Scene → Happening → Scene → Prop where
  | made {r : Contexts} {L : List Flight} (path : String) (h : r.find? path = none) :
      Change ⟨r, L⟩ (.made r.contexts.length path) ⟨(r.create path).2.1, L⟩
  | reused {r : Contexts} {L : List Flight} {path : String} {id : Nat}
      (h : r.find? path = some id) :
      Change ⟨r, L⟩ (.reused id) ⟨r.modify id Context.handOut, L⟩
  | accepts {r : Contexts} {L : List Flight} (id : Nat) (callback : Callback Action) :
      Change ⟨r, L⟩ (.accepts id callback) ⟨r.addAccept id callback, L⟩
  | disposes {r : Contexts} {L : List Flight} (id : Nat) (callback : Callback Action) :
      Change ⟨r, L⟩ (.disposes id callback) ⟨r.addDispose id callback, L⟩
  | marked {r : Contexts} {L : List Flight} (id : Nat) :
      Change ⟨r, L⟩ (.marked id) ⟨r.acceptSelf id, L⟩
  | wrote {r : Contexts} {L : List Flight} (id : Nat) (f : Data → Data) :
      Change ⟨r, L⟩ (.wrote id) ⟨r.setData id f, L⟩
  | queued {r : Contexts} {L : List Flight} {path : String} {id : Nat} (job : Job Value)
      (h : r.find? path = some id) (busy : ∀ c, r.context? id = some c → c.busy = true) :
      Change ⟨r, L⟩ (.asked id job) ⟨r.enqueue id job, L⟩
  | granted {r : Contexts} {A B : List Flight} {path : String} {id : Nat}
      {c : Context (Callback Action) Value} (job : Job Value)
      (h : r.find? path = some id) (hc : r.context? id = some c) (free : c.busy = false) :
      Change ⟨r, A ++ B⟩ (.asked id job)
        ⟨r.setBusy id true, A ++ ⟨false, ⟨id, .starting job⟩⟩ :: B⟩
  | begun {r : Contexts} {A B : List Flight} (id : Nat) (job : Job Value) :
      Change ⟨r, A ++ ⟨false, ⟨id, .starting job⟩⟩ :: B⟩ (.begun id job)
        ⟨r.modify id fun c => { c with disposes := [] },
          A ++ ⟨false, ⟨id, .disposing job (((r.context? id).map Context.disposes).getD [])⟩⟩ :: B⟩
  | calledDispose {r : Contexts} {A B : List Flight} (id : Nat) (job : Job Value)
      (callback : Callback Action) (left : List (Callback Action)) :
      Change ⟨r, A ++ ⟨false, ⟨id, .disposing job (callback :: left)⟩⟩ :: B⟩
        (.called id .dispose callback none) ⟨r, A ++ ⟨true, ⟨id, .disposing job left⟩⟩ :: B⟩
  | turned {r : Contexts} {A B : List Flight} (id : Nat) (module : Option Value) :
      Change ⟨r, A ++ ⟨false, ⟨id, .disposing (.update module) []⟩⟩ :: B⟩ (.turned id)
        ⟨r.modify id fun c => { c with accepts := [] },
          A ++ ⟨false, ⟨id, .accepting module (((r.context? id).map Context.generation).getD 0)
            (((r.context? id).map Context.accepts).getD [])
            (((r.context? id).map Context.accepts).getD [])⟩⟩ :: B⟩
  | calledAccept {r : Contexts} {A B : List Flight} (id : Nat) (module : Option Value)
      (generation : Nat) (taken : List (Callback Action)) (callback : Callback Action)
      (left : List (Callback Action)) :
      Change ⟨r, A ++ ⟨false, ⟨id, .accepting module generation taken (callback :: left)⟩⟩ :: B⟩
        (.called id .accept callback module)
        ⟨r, A ++ ⟨true, ⟨id, .accepting module generation taken left⟩⟩ :: B⟩
  | returned {r : Contexts} {A B : List Flight} (s : Running) :
      Change ⟨r, A ++ ⟨true, s⟩ :: B⟩ (.returned s.context s.phase) ⟨r, A ++ ⟨false, s⟩ :: B⟩
  | pruned {r : Contexts} {A B : List Flight} (s : Running) (h : s.stage = .disposing .prune []) :
      Change ⟨r, A ++ ⟨false, s⟩ :: B⟩ (.ended s.context .prune)
        ⟨s.release ((r.unregister (s.path r) s.context).modify s.context
          fun c => { c with queue := [] }), A ++ B⟩
  | resumed {r : Contexts} {A B : List Flight} (s : Running) {module : Option Value}
      {generation : Nat} {taken : List (Callback Action)} {job : Job Value}
      {rest : List (Job Value)}
      (h : s.stage = .accepting module generation taken [])
      (hq : ((s.putBack r (s.path r) generation taken).context? s.context).map Context.queue =
        some (job :: rest)) :
      Change ⟨r, A ++ ⟨false, s⟩ :: B⟩ (.ended s.context (.update module))
        ⟨(s.putBack r (s.path r) generation taken).modify s.context
          fun c => { c with queue := rest }, A ++ ⟨false, ⟨s.context, .starting job⟩⟩ :: B⟩
  | finished {r : Contexts} {A B : List Flight} (s : Running) {module : Option Value}
      {generation : Nat} {taken : List (Callback Action)}
      (h : s.stage = .accepting module generation taken [])
      (hq : ∀ c, (s.putBack r (s.path r) generation taken).context? s.context = some c →
        c.queue = []) :
      Change ⟨r, A ++ ⟨false, s⟩ :: B⟩ (.ended s.context (.update module))
        ⟨s.release (s.putBack r (s.path r) generation taken), A ++ B⟩
  | dropped {r : Contexts} {A B : List Flight} (f : Flight) :
      Change ⟨r, A ++ f :: B⟩ (.dropped f.context) ⟨f.sequence.release r, A ++ B⟩

inductive Changes (σ : Scene) : List Happening → Scene → Prop where
  | refl : Changes σ [] σ
  | next {hs : List Happening} {τ υ : Scene} {h : Happening} :
      Changes σ hs τ → Change τ h υ → Changes σ (hs ++ [h]) υ

theorem Change.changes {σ τ : Scene} {h : Happening} (hc : Change σ h τ) : Changes σ [h] τ :=
  .next .refl hc

theorem Changes.trans {σ τ υ : Scene} {as bs : List Happening} (ha : Changes σ as τ)
    (hb : Changes τ bs υ) : Changes σ (as ++ bs) υ := by
  induction hb with
  | refl => simpa using ha
  | next _ hc ih =>
    rw [← List.append_assoc]
    exact .next ih hc

/-! ### Frames -/

def Frame.isScript : Frame → Bool
  | .script .. => true
  | _ => false

def Frame.isSequence : Frame → Bool
  | .sequence .. => true
  | _ => false

/-- What a callback can refer to: the data of its context in one phase, the instance in the other. -/
def Phase.scope (phase : Phase) (id : Nat) (module : Option Value) : Scope :=
  match phase with
  | .dispose => { data := some id }
  | .accept => { module }

/-- What the callback that a sequence has called can refer to. -/
def Sequence.given (s : Running) : Scope :=
  match s.stage with
  | .starting _ | .disposing .. => Phase.dispose.scope s.context none
  | .accepting module _ _ _ => Phase.accept.scope s.context module

/-- Only the scripts of its callbacks stand on a sequence, with what it gives them. -/
def Stacked (frames : List Frame) : Prop :=
  frames.IsChain fun above below =>
    ∀ answer s, below = .sequence answer s → ∃ rest, above = .script s.given rest

theorem flightsIn_cons {frame : Frame} (h : frame.isSequence = false) (b : Bool)
    (below : List Frame) : flightsIn b (frame :: below) = flightsIn true below := by
  cases frame with
  | sequence answer s => simp [Frame.isSequence] at h
  | _ => rfl

theorem flightsIn_eq {frames : List Frame}
    (h : ∀ frame ∈ frames.head?, frame.isSequence = false) (a b : Bool) :
    flightsIn a frames = flightsIn b frames := by
  cases frames with
  | nil => rfl
  | cons frame below =>
    have hf : frame.isSequence = false := h frame (by simp)
    rw [flightsIn_cons hf, flightsIn_cons hf]

theorem Stacked.tail {frame : Frame} {below : List Frame} (h : Stacked (frame :: below)) :
    Stacked below := List.IsChain.tail h

theorem Stacked.head {frame : Frame} {below : List Frame} (h : Stacked (frame :: below))
    (hf : frame.isScript = false) : ∀ next ∈ below.head?, next.isSequence = false := by
  intro next hn
  have hc := (List.isChain_cons.mp h).1 next hn
  cases next with
  | sequence answer s =>
    obtain ⟨rest, rfl⟩ := hc answer s rfl
    cases hf
  | _ => rfl

theorem Stacked.cons {frame : Frame} {below : List Frame} (h : Stacked below)
    (hb : ∀ next ∈ below.head?, next.isSequence = false) : Stacked (frame :: below) := by
  refine List.isChain_cons.mpr ⟨fun next hn answer s hs => ?_, h⟩
  subst hs
  cases hb _ hn

theorem Stacked.goOn {scope : Scope} {actions : List Action} {below : List Frame}
    (h : Stacked (.script scope actions :: below)) (rest : List Action) :
    Stacked (.script scope rest :: below) := by
  refine List.isChain_cons.mpr ⟨fun next hn answer s hs => ?_, h.tail⟩
  obtain ⟨_, hscript⟩ := (List.isChain_cons.mp h).1 next hn answer s hs
  cases hscript
  exact ⟨rest, rfl⟩

theorem Stacked.call {answer : Returned} {s : Running} {below : List Frame}
    (h : Stacked (.sequence answer s :: below)) (actions : List Action) :
    Stacked (.script s.given actions :: .sequence answer s :: below) := by
  refine List.isChain_cons.mpr ⟨fun next hn answer' s' hs => ?_, h⟩
  cases hn
  cases hs
  exact ⟨actions, rfl⟩

theorem Stacked.given {above below : List Frame} {scope : Scope} {rest : List Action}
    {answer : Returned} {s : Running}
    (h : Stacked (above ++ Frame.script scope rest :: Frame.sequence answer s :: below)) :
    scope = s.given := by
  obtain ⟨-, hlast, -⟩ := List.isChain_append.mp h
  obtain ⟨_, hscript⟩ := (List.isChain_cons.mp hlast).1 _ rfl answer s rfl
  cases hscript
  rfl

theorem Stacked.flights {frame : Frame} {below : List Frame} (h : Stacked (frame :: below))
    (hseq : frame.isSequence = false) (hscript : frame.isScript = false) :
    flightsIn false below = flightsIn false (frame :: below) := by
  rw [flightsIn_cons hseq]
  exact flightsIn_eq (h.head hscript) _ _

namespace World

@[simp] theorem record_registry (w : World) (e : Entry) : (w.record e).registry = w.registry := rfl

@[simp] theorem record_tasks (w : World) (e : Entry) : (w.record e).tasks = w.tasks := rfl

@[simp] theorem report_registry (w : World) (es : List Log.Event) :
    (w.report es).registry = w.registry := rfl

@[simp] theorem report_tasks (w : World) (es : List Log.Event) :
    (w.report es).tasks = w.tasks := rfl

@[simp] theorem setFrames_registry (w : World) (t : Nat) (frames : List Frame) :
    (w.setFrames t frames).registry = w.registry := rfl

@[simp] theorem setFrames_tasks (w : World) (t : Nat) (frames : List Frame) :
    (w.setFrames t frames).tasks = w.tasks.set t frames := rfl

@[simp] theorem recordAnswer_registry (w : World) (action : String) (answer : Answer) :
    (w.recordAnswer action answer).registry = w.registry := by
  cases answer <;> rfl

@[simp] theorem recordAnswer_tasks (w : World) (action : String) (answer : Answer) :
    (w.recordAnswer action answer).tasks = w.tasks := by
  cases answer <;> rfl

@[simp] theorem reportFailure_registry (w : World) (s : Running) (failure : Option Failure) :
    (w.reportFailure s failure).registry = w.registry := by
  cases failure <;> rfl

@[simp] theorem reportFailure_tasks (w : World) (s : Running) (failure : Option Failure) :
    (w.reportFailure s failure).tasks = w.tasks := by
  cases failure <;> rfl

@[simp] theorem bind_registry (w : World) (name : Option String) (id : Nat) :
    (w.bind name id).registry = w.registry := by
  cases name <;> rfl

@[simp] theorem bind_tasks (w : World) (name : Option String) (id : Nat) :
    (w.bind name id).tasks = w.tasks := by
  cases name <;> rfl

theorem flights_split {tasks : List (List Frame)} {t : Nat} {frames : List Frame}
    (h : tasks[t]? = some frames) :
    ∃ A B, tasks.flatMap (flightsIn false) = A ++ flightsIn false frames ++ B ∧
      ∀ frames', (tasks.set t frames').flatMap (flightsIn false) =
        A ++ flightsIn false frames' ++ B := by
  obtain ⟨ht, rfl⟩ := List.getElem?_eq_some_iff.mp h
  refine ⟨(tasks.take t).flatMap (flightsIn false), (tasks.drop (t + 1)).flatMap (flightsIn false),
    ?_, fun frames' => ?_⟩
  · have hs : tasks = tasks.take t ++ tasks[t] :: tasks.drop (t + 1) := by
      rw [← List.drop_eq_getElem_cons ht, List.take_append_drop]
    conv_lhs => rw [hs]
    rw [List.flatMap_append, List.flatMap_cons, List.append_assoc]
  · rw [List.set_eq_take_append_cons_drop, if_pos ht]
    simp

/-! ### What a turn changes -/

theorem advanceEvent_spec (w : World) (p : Progress) (returned : Returned) :
    (w.advanceEvent p returned).1.registry = w.registry ∧
    (w.advanceEvent p returned).1.tasks = w.tasks ∧
    ((∃ q, (w.advanceEvent p returned).2 = [.progress q]) ∨
      ∃ path job q, (w.advanceEvent p returned).2 = [.request path job, .progress q]) := by
  unfold advanceEvent
  split
  all_goals simp

theorem leave_spec (w : World) (t : Nat) (below : List Frame) (returned : Returned)
    (h : Stacked below) :
    (w.leave t below returned).registry = w.registry ∧
    ∃ frames, (w.leave t below returned).tasks = w.tasks.set t frames ∧
      flightsIn false frames = flightsIn false below ∧ Stacked frames := by
  cases below with
  | nil => exact ⟨rfl, [], rfl, rfl, h⟩
  | cons frame rest =>
    cases frame with
    | script scope actions =>
      exact ⟨by simp [leave], _, by simp [leave], rfl, h⟩
    | sequence answer s =>
      refine ⟨?_, .sequence answer s :: rest, ?_, rfl, h⟩
      all_goals cases returned <;> simp [leave]
    | progress p =>
      obtain ⟨hr, ht, hf⟩ := advanceEvent_spec w p returned
      have hrest := h.head rfl
      refine ⟨?_, (w.advanceEvent p returned).2 ++ rest, ?_, ?_, ?_⟩
      · simp [leave, hr]
      · simp [leave, ht]
      · rcases hf with ⟨q, hq⟩ | ⟨path, job, q, hq⟩
        all_goals
          rw [hq]
          rfl
      · rcases hf with ⟨q, hq⟩ | ⟨path, job, q, hq⟩
        · rw [hq]
          exact h.tail.cons hrest
        · rw [hq]
          exact (h.tail.cons hrest).cons (by simp [Frame.isSequence])
    | request path job => exact ⟨rfl, _, rfl, rfl, h⟩
    | message m => exact ⟨rfl, _, rfl, rfl, h⟩

theorem perform_tasks (w : World) (scope : Scope) (effect : Effect Action) :
    (w.perform scope effect).1.tasks = w.tasks := by
  cases effect
  all_goals
    simp only [perform, withHandle, withData, alter]
    repeat' split
    all_goals simp

theorem withHandle_changes (w : World) (L : List Flight) (handle : String)
    (f : Nat → Contexts → Contexts) (happening : Nat → Happening)
    (h : ∀ id, Change ⟨w.registry, L⟩ (happening id) ⟨f id w.registry, L⟩) :
    Changes ⟨w.registry, L⟩ ((w.handle? handle).toList.map happening)
      ⟨(w.withHandle handle fun id => w.alter (f id)).1.registry, L⟩ := by
  unfold withHandle
  cases w.handle? handle with
  | none => exact .refl
  | some id => exact (h id).changes

theorem withData_changes (w : World) (L : List Flight) (scope : Scope) (handle : Option String)
    (f : Data → Data) (answer : Data → Answer) :
    Changes ⟨w.registry, L⟩ ((w.dataOf? scope handle).toList.map .wrote)
      ⟨(w.withData scope handle fun id data =>
        ((w.alter (·.setData id f)).1, answer data)).1.registry, L⟩ := by
  have key : ∀ name, Changes ⟨w.registry, L⟩ ((w.handle? name).toList.map .wrote)
      ⟨(w.withHandle name fun id => ((w.alter (·.setData id f)).1,
        answer (((w.registry.context? id).map Context.data).getD {}))).1.registry, L⟩ := by
    intro name
    unfold withHandle
    cases w.handle? name with
    | none => exact .refl
    | some id => exact (Change.wrote id f).changes
  unfold withData dataOf?
  rcases handle with _ | name
  · rcases scope.data with _ | id
    · exact key ""
    · exact (Change.wrote id f).changes
  · exact key name

theorem create_changes (w : World) (L : List Flight) (path : String) (handle : Option String) :
    Changes ⟨w.registry, L⟩ (w.effectHappenings {} (.create path handle))
      ⟨(w.registry.create path).2.1, L⟩ := by
  cases h : w.registry.find? path with
  | none =>
    simp only [effectHappenings, h]
    exact (Change.made path h).changes
  | some id =>
    simp only [effectHappenings, h]
    have hc : (w.registry.create path).2.1 = w.registry.modify id Context.handOut := by
      simp [Registry.create, h]
    rw [hc]
    exact (Change.reused h).changes

theorem perform_changes (w : World) (L : List Flight) (scope : Scope) (effect : Effect Action) :
    Changes ⟨w.registry, L⟩ (w.effectHappenings scope effect)
      ⟨(w.perform scope effect).1.registry, L⟩ := by
  cases effect with
  | create path handle =>
    have hr : (w.perform scope (.create path handle)).1.registry =
        (w.registry.create path).2.1 := by simp [perform]
    rw [hr]
    exact create_changes w L path handle
  | accept handle callback =>
    exact withHandle_changes w L handle (fun id r => r.addAccept id callback) _
      fun id => .accepts id callback
  | dispose handle callback =>
    exact withHandle_changes w L handle (fun id r => r.addDispose id callback) _
      fun id => .disposes id callback
  | acceptSelf handle =>
    exact withHandle_changes w L handle (fun id r => r.acceptSelf id) _ .marked
  | set handle key value =>
    exact withData_changes w L scope handle (·.insert key value) (.former <| ·.get? key)
  | delete handle key =>
    exact withData_changes w L scope handle (·.erase key) (.former <| ·.get? key)
  | get path handle =>
    simp only [perform, effectHappenings]
    cases w.registry.find? path with
    | none => exact .refl
    | some id => simpa using Changes.refl
  | _ =>
    simp only [perform, effectHappenings, withHandle, withData]
    repeat' split
    all_goals exact .refl

/-- A task has done something: its frames gave way to others, tasks may have been added that hold
nothing yet, and the registry and the flights of the task changed as the happenings say. -/
def Moved (w : World) (t : Nat) (frames : List Frame) (hs : List Happening) (w' : World) : Prop :=
  ∃ added frames', w'.tasks = (w.tasks ++ added).set t frames' ∧
    (∀ task ∈ added, flightsIn false task = [] ∧ Stacked task) ∧ Stacked frames' ∧
    ∀ A B, Changes ⟨w.registry, A ++ flightsIn false frames ++ B⟩ hs
      ⟨w'.registry, A ++ flightsIn false frames' ++ B⟩

theorem moved_quiet {w w' : World} {t : Nat} {frames : List Frame} (frames' : List Frame)
    (hr : w'.registry = w.registry) (ht : w'.tasks = w.tasks.set t frames')
    (hf : flightsIn false frames' = flightsIn false frames) (hs : Stacked frames') :
    Moved w t frames [] w' := by
  refine ⟨[], frames', by simpa using ht, by simp, hs, fun A B => ?_⟩
  rw [hr, hf]
  exact .refl

theorem moved_refl {w : World} {t : Nat} {frames : List Frame} (ht : w.tasks[t]? = some frames)
    (hs : Stacked frames) : Moved w t frames [] w := by
  obtain ⟨hlt, rfl⟩ := List.getElem?_eq_some_iff.mp ht
  exact moved_quiet _ rfl (by simp) rfl hs

theorem finish_moved (w : World) (t : Nat) (scope : Scope) (rest : List Action)
    (below : List Frame) (failure : Option Failure) (h : Stacked (.script scope rest :: below)) :
    Moved w t (.script scope rest :: below)
      (match below with
        | .sequence _ s :: _ => [.returned s.context s.phase]
        | _ => [])
      (w.leave t below (.finished failure)) := by
  obtain ⟨hr, frames, ht, hf, hs⟩ := leave_spec w t below (.finished failure) h.tail
  by_cases hseq : ∃ answer s rest', below = .sequence answer s :: rest'
  · obtain ⟨answer, s, rest', rfl⟩ := hseq
    refine ⟨[], frames, by simpa using ht, by simp, hs, fun A B => ?_⟩
    rw [hr, hf]
    simpa [flightsIn] using (Change.returned (r := w.registry) (A := A)
      (B := flightsIn true rest' ++ B) s).changes
  · have hq : flightsIn false frames = flightsIn false (.script scope rest :: below) := by
      rw [hf, flightsIn_cons rfl]
      apply flightsIn_eq
      intro frame hframe
      cases below with
      | nil => simp at hframe
      | cons first rest' =>
        obtain rfl : first = frame := by simpa using hframe
        cases first with
        | sequence answer s => exact absurd ⟨answer, s, rest', rfl⟩ hseq
        | _ => rfl
    have hm := moved_quiet frames hr ht hq hs
    split
    · exact absurd ⟨_, _, _, rfl⟩ hseq
    · exact hm

theorem start_spec (w : World) (command : Command Action) :
    (w.start command).1.registry = w.registry ∧
    ∃ added, (w.start command).1.tasks = w.tasks ++ added ∧
      ∀ task ∈ added, flightsIn false task = [] ∧ Stacked task := by
  have single : ∀ frame : Frame, frame.isSequence = false →
      ∀ task ∈ [[frame]], flightsIn false task = [] ∧ Stacked task := by
    intro frame hf task ht
    obtain rfl : task = [frame] := by simpa using ht
    exact ⟨flightsIn_cons hf _ _, List.isChain_singleton _⟩
  cases command with
  | message text =>
    simp only [start]
    split
    · exact ⟨rfl, _, rfl, single _ rfl⟩
    · exact ⟨rfl, [], by simp, by simp⟩
  | _ => exact ⟨rfl, _, rfl, single _ rfl⟩

theorem act_moved (w : World) (t : Nat) (scope : Scope) (action : Action) (rest : List Action)
    (below : List Frame) (ht : w.tasks[t]? = some (.script scope (action :: rest) :: below))
    (h : Stacked (.script scope (action :: rest) :: below)) :
    Moved w t (.script scope (action :: rest) :: below)
      (w.stepHappenings (.script scope (action :: rest) :: below))
      (w.act t scope action rest below).1 := by
  cases action with
  | effect effect =>
    refine ⟨[], .script scope rest :: below, ?_, by simp, h.goOn rest, fun A B => ?_⟩
    · simp [act, perform_tasks]
    · simp only [act, recordAnswer_registry, setFrames_registry]
      exact perform_changes w _ scope effect
  | fail reason =>
    have hm := finish_moved w t scope (.fail reason :: rest) below (some (.failed reason)) h
    rcases below with _ | ⟨_ | _ | _ | _ | _, below⟩ <;> exact hm
  | panic payload =>
    have hm := finish_moved w t scope (.panic payload :: rest) below
      (some (.panicked (panicText payload))) h
    rcases below with _ | ⟨_ | _ | _ | _ | _, below⟩ <;> exact hm
  | wait gate =>
    simp only [act]
    split
    · exact moved_quiet (.script scope rest :: below) rfl rfl rfl (h.goOn rest)
    · exact moved_refl ht h
  | yield => exact moved_quiet (.script scope rest :: below) rfl rfl rfl (h.goOn rest)
  | ifModule value steps => exact moved_quiet _ rfl rfl rfl (h.goOn _)
  | apply path module =>
    exact moved_quiet (.request path (.update module) :: .script scope rest :: below) rfl rfl rfl
      ((h.goOn rest).cons (by simp [Frame.isSequence]))
  | prune path =>
    exact moved_quiet (.request path .prune :: .script scope rest :: below) rfl rfl rfl
      ((h.goOn rest).cons (by simp [Frame.isSequence]))
  | spawn command =>
    obtain ⟨hr, added, ht, hadded⟩ := start_spec w command
    refine ⟨added, .script scope rest :: below, ?_, hadded, h.goOn rest,
      fun A B => ?_⟩
    · simp [act, ht]
    · simp only [act, recordAnswer_registry, setFrames_registry, hr]
      exact .refl

theorem leave_moved {w w' : World} {t : Nat} {frames below : List Frame} {returned : Returned}
    (hr : w'.registry = w.registry) (ht : w'.tasks = w.tasks)
    (hf : flightsIn false below = flightsIn false frames) (h : Stacked below) :
    Moved w t frames [] (w'.leave t below returned) := by
  obtain ⟨hlr, frames', hlt, hlf, hs⟩ := leave_spec w' t below returned h
  exact moved_quiet frames' (hlr.trans hr) (by rw [hlt, ht]) (hlf.trans hf) hs

theorem request_queued (r : Contexts) (id : Nat) (job : Job Value)
    (h : ∀ c, r.context? id = some c → c.busy = true) :
    (Sequence.request r id job).1 = none ∧
    (Sequence.request r id job).2.1 = r.enqueue id job := by
  unfold Sequence.request
  cases hc : r.context? id with
  | none =>
    have hlen : r.contexts.length ≤ id := List.getElem?_eq_none_iff.mp hc
    have hm : r.contexts.modify id (fun c => { c with queue := c.queue ++ [job] }) = r.contexts :=
      List.modify_eq_self hlen
    simp [Registry.enqueue, Registry.modify, hm]
  | some c => simp [h c hc]

theorem request_granted (r : Contexts) (id : Nat) (job : Job Value)
    {c : Context (Callback Action) Value} (hc : r.context? id = some c) (free : c.busy = false) :
    (Sequence.request r id job).1 = some ⟨id, .starting job⟩ ∧
    (Sequence.request r id job).2.1 = r.setBusy id true := by
  simp [Sequence.request, hc, free]

theorem request_moved (w : World) (t : Nat) (path : String) (job : Job Value)
    (below : List Frame) (h : Stacked (.request path job :: below)) :
    Moved w t (.request path job :: below) (w.stepHappenings (.request path job :: below))
      (w.request t path job below) := by
  cases hfind : w.registry.find? path with
  | none =>
    simp only [request, stepHappenings, hfind]
    cases job with
    | prune => exact leave_moved rfl rfl (h.flights rfl rfl) h.tail
    | update module => exact leave_moved rfl rfl (h.flights rfl rfl) h.tail
  | some id =>
    simp only [request, stepHappenings, hfind]
    by_cases busy : ∀ c, w.registry.context? id = some c → c.busy = true
    · obtain ⟨hnone, hr⟩ := request_queued w.registry id job busy
      simp only [hnone, hr]
      obtain ⟨hlr, frames, hlt, hf, hs⟩ := leave_spec ({ w with
        registry := w.registry.enqueue id job }.report (Sequence.request w.registry id job).2.2)
        t below (.ofJob job) h.tail
      refine ⟨[], frames, by simp [hlt], by simp, hs, fun A B => ?_⟩
      rw [hlr, hf, flightsIn_cons rfl, flightsIn_eq (h.head rfl) true false]
      exact (Change.queued job hfind busy).changes
    · obtain ⟨c, hc, free⟩ : ∃ c, w.registry.context? id = some c ∧ c.busy = false := by
        simpa using busy
      obtain ⟨hsome, hr⟩ := request_granted w.registry id job hc free
      simp only [hsome, hr]
      refine ⟨[], .sequence (.ofJob job) ⟨id, .starting job⟩ :: below, by simp, by simp,
        h.tail.cons (h.head rfl), fun A B => ?_⟩
      have hg := Change.granted (A := A) (B := flightsIn true below ++ B) job hfind hc free
      simpa [flightsIn] using hg.changes

def nextFlights : Next (Callback Action) Value → List Flight
  | .again s => [⟨false, s⟩]
  | .call _ _ _ s => [⟨true, s⟩]
  | .ended => []

theorem accepted_change (r : Contexts) (A B : List Flight) (s : Running) (module : Option Value)
    (generation : Nat) (taken : List (Callback Action))
    (h : s.stage = .accepting module generation taken []) :
    Change ⟨r, A ++ ⟨false, s⟩ :: B⟩ (.ended s.context (.update module))
      ⟨(s.step r).2.1, A ++ nextFlights (s.step r).1 ++ B⟩ := by
  have hstep : s.step r = ((s.proceed (s.putBack r (s.path r) generation taken)).1,
      (s.proceed (s.putBack r (s.path r) generation taken)).2,
      [⟨.debug, "hot update applied", [("path", .text (s.path r))]⟩]) := by
    simp [Sequence.step, h]
  rw [hstep]
  by_cases hq : ∃ job rest, ((s.putBack r (s.path r) generation taken).context? s.context).map
      Context.queue = some (job :: rest)
  · obtain ⟨job, rest, hq⟩ := hq
    simpa [nextFlights, Sequence.proceed, hq] using
      Change.resumed (r := r) (A := A) (B := B) s h hq
  · have empty : ∀ c, (s.putBack r (s.path r) generation taken).context? s.context = some c →
        c.queue = [] := by
      intro c hc
      cases hcq : c.queue with
      | nil => rfl
      | cons job rest => exact absurd ⟨job, rest, by simp [hc, hcq]⟩ hq
    have hp : s.proceed (s.putBack r (s.path r) generation taken) =
        (.ended, s.release (s.putBack r (s.path r) generation taken)) := by
      unfold Sequence.proceed
      split
      · rename_i job rest heq
        exact absurd ⟨job, rest, heq⟩ hq
      · rfl
    simpa [nextFlights, hp] using Change.finished (r := r) (A := A) (B := B) s h empty

theorem sequence_change (r : Contexts) (A B : List Flight) (s : Running) :
    Change ⟨r, A ++ ⟨false, s⟩ :: B⟩ s.happening
      ⟨(s.step r).2.1, A ++ nextFlights (s.step r).1 ++ B⟩ := by
  obtain ⟨id, stage⟩ := s
  cases stage with
  | starting job =>
    simpa [nextFlights, Sequence.step, Sequence.happening] using Change.begun id job
  | disposing job left =>
    cases left with
    | cons callback left =>
      simpa [nextFlights, Sequence.step, Sequence.happening] using
        Change.calledDispose id job callback left
    | nil =>
      cases job with
      | update module =>
        simpa [nextFlights, Sequence.step, Sequence.happening] using Change.turned id module
      | prune =>
        simpa [nextFlights, Sequence.step, Sequence.happening] using
          Change.pruned (r := r) (A := A) (B := B) ⟨id, .disposing .prune []⟩ rfl
  | accepting module generation taken left =>
    cases left with
    | cons callback left =>
      simpa [nextFlights, Sequence.step, Sequence.happening] using
        Change.calledAccept id module generation taken callback left
    | nil => exact accepted_change r A B _ module generation taken rfl

theorem step_call {s next : Running} {r : Contexts} {phase : Phase} {callback : Callback Action}
    {module : Option Value} (h : (s.step r).1 = .call phase callback module next) :
    s.happening = .called s.context phase callback module ∧ next.context = s.context ∧
      next.given = phase.scope next.context module := by
  obtain ⟨id, stage⟩ := s
  cases stage with
  | starting job => cases h
  | disposing job left =>
    cases left with
    | cons callback left =>
      cases h
      exact ⟨rfl, rfl, rfl⟩
    | nil => cases job <;> cases h
  | accepting module generation taken left =>
    cases left with
    | cons callback left =>
      cases h
      exact ⟨rfl, rfl, rfl⟩
    | nil =>
      simp only [Sequence.step, Sequence.proceed] at h
      split at h <;> cases h

theorem advanceSequence_moved (w : World) (t : Nat) (answer : Returned) (s : Running)
    (below : List Frame) (h : Stacked (.sequence answer s :: below)) :
    Moved w t (.sequence answer s :: below) [s.happening]
      (w.advanceSequence t answer s below) := by
  have change := fun A B => sequence_change w.registry A (flightsIn true below ++ B) s
  unfold advanceSequence
  cases hn : (s.step w.registry).1 with
  | again next =>
    refine ⟨[], .sequence answer next :: below, by simp [hn], by simp, h.tail.cons (h.head rfl),
      fun A B => ?_⟩
    simpa [hn, nextFlights, flightsIn] using (change A B).changes
  | call phase callback module next =>
    obtain ⟨-, -, hgiven⟩ := step_call hn
    refine ⟨[], .script next.given callback.actions :: .sequence answer next :: below, ?_, by simp,
      (h.tail.cons (h.head rfl)).call _, fun A B => ?_⟩
    · rw [hgiven]
      simp [hn]
      cases phase <;> rfl
    · simpa [hn, nextFlights, flightsIn] using (change A B).changes
  | ended =>
    obtain ⟨hlr, frames, hlt, hf, hs⟩ := leave_spec ({ w with
      registry := (s.step w.registry).2.1 }.report (s.step w.registry).2.2) t below answer h.tail
    refine ⟨[], frames, by simp [hn, hlt], by simp, hs, fun A B => ?_⟩
    simp only [hn, hlr, hf]
    rw [flightsIn_eq (h.head rfl) false true]
    simpa [hn, nextFlights, flightsIn] using (change A B).changes

theorem load_moved {w w' : World} {t : Nat} {path : String} {left : List String}
    {frame : Frame} {below : List Frame} (hr : w'.registry = w.registry)
    (ht : w'.tasks = w.tasks) (hseq : frame.isSequence = false) (hscript : frame.isScript = false)
    (h : Stacked (frame :: below)) :
    Moved w t (frame :: below) [] (w'.load t path left below) := by
  have waiting : ∀ p : Progress, Stacked (.progress p :: below) :=
    fun _ => h.tail.cons (h.head hscript)
  simp only [load]
  split
  · refine moved_quiet _ hr (by simp [ht]; rfl) ?_ ((waiting _).cons (by simp [Frame.isSequence]))
    rw [flightsIn_cons rfl, flightsIn_cons rfl, flightsIn_cons hseq]
  · refine leave_moved hr ht ?_ (waiting _)
    rw [flightsIn_cons rfl, flightsIn_cons hseq]

theorem advanceProgress_moved (w : World) (t : Nat) (p : Progress) (below : List Frame)
    (ht : w.tasks[t]? = some (.progress p :: below)) (h : Stacked (.progress p :: below)) :
    Moved w t (.progress p :: below) [] (w.advanceProgress t p below) := by
  cases p with
  | updating paths =>
    cases paths with
    | nil => exact leave_moved rfl rfl (h.flights rfl rfl) h.tail
    | cons path left => exact load_moved rfl rfl rfl rfl h
  | pruning paths =>
    cases paths with
    | nil => exact leave_moved rfl rfl (h.flights rfl rfl) h.tail
    | cons path left =>
      exact moved_quiet (.request path .prune :: .progress (.pruning left) :: below) rfl rfl rfl
        ((h.tail.cons (h.head rfl)).cons (by simp [Frame.isSequence]))
  | decided outcome => exact leave_moved rfl rfl (h.flights rfl rfl) h.tail
  | loading path version left => exact moved_refl ht h
  | applying left => exact moved_refl ht h

theorem stepFrame_moved (w : World) (t : Nat) (frame : Frame) (below : List Frame)
    (ht : w.tasks[t]? = some (frame :: below)) (h : Stacked (frame :: below)) :
    Moved w t (frame :: below) (w.stepHappenings (frame :: below))
      (w.stepFrame t frame below).1 := by
  cases frame with
  | script scope actions =>
    cases actions with
    | nil =>
      have hm := finish_moved w t scope [] below none h
      rcases below with _ | ⟨_ | _ | _ | _ | _, below⟩ <;> exact hm
    | cons action rest => exact act_moved w t scope action rest below ht h
  | request path job => exact request_moved w t path job below h
  | sequence answer s => exact advanceSequence_moved w t answer s below h
  | message m =>
    exact moved_quiet (.progress ((m.hostEvent?.map Progress.ofEvent).getD (.decided .proceed)) ::
      below) rfl rfl rfl (h.tail.cons (h.head rfl))
  | progress p => exact advanceProgress_moved w t p below ht h

theorem releaseAll_changes (A B : List Flight) (frames : List Frame) (b : Bool) (r : Contexts) :
    Changes ⟨r, A ++ flightsIn b frames ++ B⟩
      ((flightsIn b frames).map fun f => .dropped f.context)
      ⟨releaseAll r frames, A ++ B⟩ := by
  induction frames generalizing b r with
  | nil => simpa [flightsIn, releaseAll] using Changes.refl
  | cons frame below ih =>
    cases frame with
    | sequence answer s =>
      have hd := (Change.dropped (r := r) (A := A) (B := flightsIn true below ++ B) ⟨b, s⟩).changes
      have hc := hd.trans (by simpa using ih true (s.release r))
      simpa [flightsIn, releaseAll] using hc
    | _ => exact ih true r

def WellStacked (w : World) : Prop :=
  ∀ frames ∈ w.tasks, Stacked frames

theorem Moved.changes {w w' : World} {t : Nat} {frames : List Frame} {hs : List Happening}
    (hm : Moved w t frames hs w') (ht : w.tasks[t]? = some frames) (h : w.WellStacked) :
    Changes w.scene hs w'.scene ∧ w'.WellStacked := by
  obtain ⟨added, frames', htasks, hadded, hstacked, hchanges⟩ := hm
  have hempty : added.flatMap (flightsIn false) = [] :=
    List.flatMap_eq_nil_iff.mpr fun task htask => (hadded task htask).1
  have hget : (w.tasks ++ added)[t]? = some frames := by
    obtain ⟨hlt, -⟩ := List.getElem?_eq_some_iff.mp ht
    rw [List.getElem?_append_left hlt, ht]
  obtain ⟨A, B, hold, hnew⟩ := flights_split hget
  constructor
  · have hw : w.flights = A ++ flightsIn false frames ++ B := by
      rw [← hold, List.flatMap_append, hempty, List.append_nil]
      rfl
    have hw' : w'.flights = A ++ flightsIn false frames' ++ B := by
      unfold flights
      rw [htasks, hnew]
    unfold scene
    rw [hw, hw']
    exact hchanges A B
  · intro task htask
    rw [htasks] at htask
    rcases List.mem_or_eq_of_mem_set htask with hmem | rfl
    · rcases List.mem_append.mp hmem with hmem | hmem
      · exact h task hmem
      · exact (hadded task hmem).2
    · exact hstacked

/-- A turn changes contexts and flights exactly as its happenings say. -/
theorem turn_changes (w : World) (turn : Turn) (h : w.WellStacked) :
    Changes w.scene (w.happenings turn) (w.turn turn).scene ∧ (w.turn turn).WellStacked := by
  cases turn with
  | step t =>
    simp only [happenings, World.turn, step]
    cases ht : w.tasks[t]? with
    | none => exact ⟨.refl, h⟩
    | some frames =>
      have hs := h frames (List.mem_of_getElem? ht)
      cases frames with
      | nil => exact ⟨.refl, h⟩
      | cons frame below => exact (stepFrame_moved w t frame below ht hs).changes ht h
  | operate operation =>
    cases operation with
    | effect effect =>
      -- an effect touches no task, so no flight comes or goes
      have ht : (w.perform {} effect).1.tasks = w.tasks := perform_tasks w {} effect
      refine ⟨?_, ?_⟩
      · have hf : (w.perform {} effect).1.flights = w.flights := by unfold flights; rw [ht]
        unfold scene
        simp only [World.turn, operate, hf]
        exact perform_changes w w.flights {} effect
      · unfold WellStacked
        simp only [World.turn, operate, ht]
        exact h
    | start command =>
      -- a task that is started holds nothing yet
      obtain ⟨hr, added, ht, hadded⟩ := start_spec w command
      have hempty : added.flatMap (flightsIn false) = [] :=
        List.flatMap_eq_nil_iff.mpr fun task htask => (hadded task htask).1
      refine ⟨?_, ?_⟩
      · have hf : (w.start command).1.flights = w.flights := by
          unfold flights
          rw [ht, List.flatMap_append, hempty, List.append_nil]
        unfold scene
        simp only [World.turn, operate, hf, hr]
        exact .refl
      · intro task htask
        simp only [World.turn, operate, ht] at htask
        rcases List.mem_append.mp htask with hmem | hmem
        · exact h task hmem
        · exact (hadded task hmem).2
    | cancel t =>
      simp only [happenings, World.turn, operate, cancel]
      cases ht : w.tasks[t]? with
      | none => exact ⟨.refl, h⟩
      | some frames =>
        cases frames with
        | nil => exact ⟨.refl, h⟩
        | cons frame below =>
          -- the flights of the dropped frames stand together in the list of all
          obtain ⟨A, B, hold, hnew⟩ := flights_split ht
          refine ⟨?_, ?_⟩
          · unfold scene flights
            simp only [setFrames_registry, setFrames_tasks, hold, hnew]
            simpa [flightsIn] using releaseAll_changes A B (frame :: below) false w.registry
          · intro task htask
            rcases List.mem_or_eq_of_mem_set htask with hmem | rfl
            · exact h task hmem
            · exact List.isChain_nil

theorem initial_wellStacked (modules : List (String × List Action)) :
    (initial modules).WellStacked := by
  intro frames h
  simp [initial] at h

theorem history_changes (w : World) (turns : List Turn) (h : w.WellStacked) :
    Changes w.scene (w.history turns) (w.after turns).scene := by
  induction turns generalizing w with
  | nil => exact .refl
  | cons turn turns ih =>
    obtain ⟨hfirst, hw⟩ := turn_changes w turn h
    exact hfirst.trans (ih (w.turn turn) hw)

theorem after_wellStacked (modules : List (String × List Action)) (turns : List Turn) :
    ((initial modules).after turns).WellStacked := by
  induction turns using List.reverseRecOn with
  | nil => exact initial_wellStacked modules
  | append_singleton turns turn ih =>
    rw [after_append]
    exact (turn_changes _ turn ih).2

/-- A run from the beginning makes exactly the changes of its history. -/
theorem run_changes (modules : List (String × List Action)) (turns : List Turn) :
    Changes ⟨{}, []⟩ ((initial modules).history turns) ((initial modules).after turns).scene :=
  history_changes (initial modules) turns (initial_wellStacked modules)

end World

end ModuleHost.Hot
