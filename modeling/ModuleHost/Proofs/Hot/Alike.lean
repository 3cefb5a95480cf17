import Mathlib.Data.List.Forall2
import ModuleHost.Proofs.Hot.History
import ModuleHost.Proofs.Hot.Registry

/-! Worlds that differ only in how callbacks will end. Two callbacks are alike when they do the same
up to their ends; everything that holds callbacks is alike when its callbacks are. -/

namespace ModuleHost.Hot

open ModuleHost.Json

/-- How a script ends that is at its end: nothing is left of it, or it fails or panics. -/
def outcome? : List Action → Option (Option Failure)
  | [] => some none
  | .fail reason :: _ => some (some (.failed reason))
  | .panic payload :: _ => some (some (.panicked (panicText payload)))
  | _ => none

mutual

/-- Scripts that do the same. Where `free` is true, each may end in its own way. -/
inductive Script.Alike : Bool → List Action → List Action → Prop where
  | nil {free : Bool} : Script.Alike free [] []
  | ended {as bs : List Action} {first second : Option Failure} (ends : outcome? as = some first)
      (ends' : outcome? bs = some second) : Script.Alike true as bs
  | cons {free : Bool} {a b : Action} {as bs : List Action} (action : Action.Alike a b)
      (rest : Script.Alike free as bs) : Script.Alike free (a :: as) (b :: bs)
  | choice {free : Bool} {ss ts as bs : List Action} (value : Value)
      (taken : Script.Alike free (ss ++ as) (ts ++ bs)) (skipped : Script.Alike free as bs) :
      Script.Alike free (.ifModule value ss :: as) (.ifModule value ts :: bs)

inductive Action.Alike : Action → Action → Prop where
  | same (a : Action) : Action.Alike a a
  | effect {e f : Effect Action} (h : Effect.Alike e f) : Action.Alike (.effect e) (.effect f)
  | spawn {c d : Command Action} (h : Command.Alike c d) : Action.Alike (.spawn c) (.spawn d)

/-- Effects are the same but for the ends of the callbacks that they register. -/
inductive Effect.Alike : Effect Action → Effect Action → Prop where
  | same (e : Effect Action) : Effect.Alike e e
  | accept (handle : String) {c d : Callback Action}
      (h : Script.Alike true c.actions d.actions) :
      Effect.Alike (.accept handle c) (.accept handle d)
  | dispose (handle : String) {c d : Callback Action}
      (h : Script.Alike true c.actions d.actions) :
      Effect.Alike (.dispose handle c) (.dispose handle d)

inductive Command.Alike : Command Action → Command Action → Prop where
  | same (c : Command Action) : Command.Alike c c
  | run {ss ts : List Action} (h : Script.Alike false ss ts) : Command.Alike (.run ss) (.run ts)

end

/-- Callbacks that do the same up to their ends. -/
def Callback.Alike (c d : Callback Action) : Prop := Script.Alike true c.actions d.actions

theorem Script.Alike.append {free : Bool} {as bs : List Action} (h : Script.Alike free as bs)
    (first : List Action) : Script.Alike free (first ++ as) (first ++ bs) := by
  induction first with
  | nil => exact h
  | cons a first ih => exact .cons (.same a) ih

theorem Script.Alike.refl (free : Bool) (as : List Action) : Script.Alike free as as := by
  simpa using Script.Alike.nil.append as

theorem Callback.Alike.refl (c : Callback Action) : c.Alike c := Script.Alike.refl true _

theorem Callback.alike_of_ends {c d : Callback Action} (actions : List Action)
    {as bs : List Action} {first second : Option Failure} (hc : c.actions = actions ++ as)
    (hd : d.actions = actions ++ bs) (ends : outcome? as = some first)
    (ends' : outcome? bs = some second) : c.Alike d := by
  rw [Callback.Alike, hc, hd]
  exact (Script.Alike.ended ends ends').append actions

abbrev Callbacks.Alike : List (Callback Action) → List (Callback Action) → Prop :=
  List.Forall₂ Callback.Alike

inductive Context.Alike : Context (Callback Action) Value → Context (Callback Action) Value → Prop
  where
  | intro {c : Context (Callback Action) Value} {accepts disposes : List (Callback Action)}
      (accepting : Callbacks.Alike c.accepts accepts)
      (disposing : Callbacks.Alike c.disposes disposes) :
      Context.Alike c { c with accepts, disposes }

theorem Callbacks.Alike.append {as bs cs ds : List (Callback Action)}
    (h : Callbacks.Alike as bs) (h' : Callbacks.Alike cs ds) :
    Callbacks.Alike (as ++ cs) (bs ++ ds) := List.rel_append h h'

theorem Callbacks.Alike.refl (cs : List (Callback Action)) : Callbacks.Alike cs cs :=
  List.forall₂_same.mpr fun c _ => Callback.Alike.refl c

theorem Context.Alike.refl (c : Context (Callback Action) Value) : c.Alike c :=
  .intro (.refl _) (.refl _)

theorem Context.Alike.state_eq {c d : Context (Callback Action) Value} (h : c.Alike d) :
    d.state = c.state := by
  obtain ⟨ha, hd⟩ := h
  simp [Context.state, ha.length_eq, hd.length_eq]

theorem Context.Alike.display_eq {c d : Context (Callback Action) Value} (h : c.Alike d) :
    d.display = c.display := by
  obtain ⟨ha, hd⟩ := h
  unfold Context.display
  rw [ha.length_eq, hd.length_eq]

structure Registry.Alike (r s : Contexts) : Prop where
  contexts : List.Forall₂ Context.Alike r.contexts s.contexts
  registered : s.registered = r.registered

namespace Registry.Alike

variable {r s : Contexts} {f g : Context (Callback Action) Value → Context (Callback Action) Value}

theorem refl (r : Contexts) : Registry.Alike r r :=
  ⟨List.forall₂_same.mpr fun c _ => .refl c, rfl⟩

theorem find? (h : Registry.Alike r s) (path : String) : s.find? path = r.find? path := by
  simp [Registry.find?, h.registered]

theorem context? (h : Registry.Alike r s) (id : Nat) :
    r.context? id = none ∧ s.context? id = none ∨
      ∃ c d, r.context? id = some c ∧ s.context? id = some d ∧ c.Alike d := by
  obtain ⟨hlen, hget⟩ := List.forall₂_iff_get.mp h.contexts
  unfold Registry.context?
  by_cases hid : id < r.contexts.length
  · have hid' := hlen ▸ hid
    exact .inr ⟨_, _, List.getElem?_eq_getElem hid, List.getElem?_eq_getElem hid',
      hget id hid hid'⟩
  · have hid' := hlen ▸ hid
    exact .inl ⟨List.getElem?_eq_none (Nat.le_of_not_lt hid),
      List.getElem?_eq_none (Nat.le_of_not_lt hid')⟩

theorem map_context? {β : Type} {view : Context (Callback Action) Value → β}
    (h : Registry.Alike r s) (id : Nat) (hview : ∀ c d, c.Alike d → view d = view c) :
    (s.context? id).map view = (r.context? id).map view := by
  rcases h.context? id with ⟨hr, hs⟩ | ⟨c, d, hr, hs, hcd⟩
  · rw [hr, hs]
  · rw [hr, hs, Option.map_some, Option.map_some, hview c d hcd]

theorem callbacks (view : Context (Callback Action) Value → List (Callback Action))
    (h : Registry.Alike r s) (id : Nat)
    (hview : ∀ c d, c.Alike d → Callbacks.Alike (view c) (view d)) :
    Callbacks.Alike (((r.context? id).map view).getD []) (((s.context? id).map view).getD []) := by
  rcases h.context? id with ⟨hr, hs⟩ | ⟨c, d, hr, hs, hcd⟩
  · rw [hr, hs]
    exact .nil
  · rw [hr, hs]
    exact hview c d hcd

theorem modify (h : Registry.Alike r s) (id : Nat) (hfg : ∀ c d, c.Alike d → (f c).Alike (g d)) :
    Registry.Alike (r.modify id f) (s.modify id g) := by
  refine ⟨?_, h.registered⟩
  obtain ⟨hlen, hget⟩ := List.forall₂_iff_get.mp h.contexts
  refine List.forall₂_iff_get.mpr ⟨by simp [Registry.modify, hlen], fun i hi hi' => ?_⟩
  simp only [Registry.modify, List.length_modify] at hi hi'
  simp only [Registry.modify, List.get_eq_getElem, List.getElem_modify]
  split
  · exact hfg _ _ (hget i hi hi')
  · exact hget i hi hi'

theorem unregister (h : Registry.Alike r s) (path : String) (id : Nat) :
    Registry.Alike (r.unregister path id) (s.unregister path id) :=
  ⟨h.contexts, by simp [Registry.unregister, h.registered]⟩

theorem create (h : Registry.Alike r s) (path : String) :
    (s.create path).1 = (r.create path).1 ∧ (s.create path).2.2 = (r.create path).2.2 ∧
      Registry.Alike (r.create path).2.1 (s.create path).2.1 := by
  have hfind := h.find? path
  cases hr : r.find? path with
  | some id =>
    rw [hr] at hfind
    simp only [Registry.create, hr, hfind, true_and]
    refine h.modify id fun c d hcd => ?_
    obtain ⟨ha, hd⟩ := hcd
    exact .intro .nil hd
  | none =>
    rw [hr] at hfind
    simp only [Registry.create, hr, hfind, h.contexts.length_eq, h.registered, true_and]
    exact ⟨List.rel_append h.contexts (.cons (.refl _) .nil), rfl⟩

theorem addAccept {c d : Callback Action} (h : Registry.Alike r s) (id : Nat) (hcd : c.Alike d) :
    Registry.Alike (r.addAccept id c) (s.addAccept id d) := by
  refine h.modify id fun _ _ hctx => ?_
  obtain ⟨ha, hd⟩ := hctx
  exact .intro (ha.append (.cons hcd .nil)) hd

theorem addDispose {c d : Callback Action} (h : Registry.Alike r s) (id : Nat) (hcd : c.Alike d) :
    Registry.Alike (r.addDispose id c) (s.addDispose id d) := by
  refine h.modify id fun _ _ hctx => ?_
  obtain ⟨ha, hd⟩ := hctx
  exact .intro ha (hd.append (.cons hcd .nil))

theorem acceptSelf (h : Registry.Alike r s) (id : Nat) :
    Registry.Alike (r.acceptSelf id) (s.acceptSelf id) := by
  refine h.modify id fun _ _ hctx => ?_
  obtain ⟨ha, hd⟩ := hctx
  exact .intro ha hd

theorem setData (h : Registry.Alike r s) (id : Nat) (change : Data → Data) :
    Registry.Alike (r.setData id change) (s.setData id change) := by
  refine h.modify id fun _ _ hctx => ?_
  obtain ⟨ha, hd⟩ := hctx
  exact .intro ha hd

theorem setBusy (h : Registry.Alike r s) (id : Nat) (busy : Bool) :
    Registry.Alike (r.setBusy id busy) (s.setBusy id busy) := by
  refine h.modify id fun _ _ hctx => ?_
  obtain ⟨ha, hd⟩ := hctx
  exact .intro ha hd

theorem enqueue (h : Registry.Alike r s) (id : Nat) (job : Job Value) :
    Registry.Alike (r.enqueue id job) (s.enqueue id job) := by
  refine h.modify id fun _ _ hctx => ?_
  obtain ⟨ha, hd⟩ := hctx
  exact .intro ha hd

theorem request (h : Registry.Alike r s) (id : Nat) (job : Job Value) :
    (Sequence.request s id job).1 = (Sequence.request r id job).1 ∧
      Registry.Alike (Sequence.request r id job).2.1 (Sequence.request s id job).2.1 ∧
      (Sequence.request s id job).2.2 = (Sequence.request r id job).2.2 := by
  unfold Sequence.request
  rcases h.context? id with ⟨hr, hs⟩ | ⟨c, d, hr, hs, hcd⟩
  · rw [hr, hs]
    exact ⟨rfl, h, rfl⟩
  · rw [hr, hs]
    obtain ⟨-, -⟩ := hcd
    dsimp only
    split
    · exact ⟨rfl, h.enqueue id job, rfl⟩
    · exact ⟨rfl, h.setBusy id true, rfl⟩

end Registry.Alike

inductive Stage.Alike : Stage (Callback Action) Value → Stage (Callback Action) Value → Prop where
  | starting (job : Job Value) : Stage.Alike (.starting job) (.starting job)
  | disposing (job : Job Value) {as bs : List (Callback Action)} (left : Callbacks.Alike as bs) :
      Stage.Alike (.disposing job as) (.disposing job bs)
  | accepting (module : Option Value) (generation : Nat) {as bs cs ds : List (Callback Action)}
      (taken : Callbacks.Alike as bs) (left : Callbacks.Alike cs ds) :
      Stage.Alike (.accepting module generation as cs) (.accepting module generation bs ds)

inductive Sequence.Alike : Running → Running → Prop where
  | intro (context : Nat) {a b : Stage (Callback Action) Value} (stage : Stage.Alike a b) :
      Sequence.Alike ⟨context, a⟩ ⟨context, b⟩

inductive Next.Alike : Next (Callback Action) Value → Next (Callback Action) Value → Prop where
  | again {s s' : Running} (h : s.Alike s') : Next.Alike (.again s) (.again s')
  | call (phase : Phase) {c d : Callback Action} (module : Option Value) {s s' : Running}
      (callback : c.Alike d) (h : s.Alike s') :
      Next.Alike (.call phase c module s) (.call phase d module s')
  | ended : Next.Alike .ended .ended

namespace Sequence.Alike

variable {r r' : Contexts} {s s' : Running}

theorem refl (s : Running) : s.Alike s := by
  refine .intro s.context ?_
  cases s.stage with
  | starting job => exact .starting job
  | disposing job left => exact .disposing job (.refl _)
  | accepting module generation taken left =>
    exact .accepting module generation (.refl _) (.refl _)

theorem context_eq (hs : s.Alike s') : s'.context = s.context := by
  cases hs with
  | intro context stage => rfl

theorem phase_eq (hs : s.Alike s') : s'.phase = s.phase := by
  cases hs with
  | intro context stage => cases stage <;> rfl

theorem path_eq (hs : s.Alike s') (hr : Registry.Alike r r') : s'.path r' = s.path r := by
  unfold Sequence.path
  rw [hs.context_eq, hr.map_context? s.context fun c d hcd => by cases hcd; rfl]

theorem release (hs : s.Alike s') (hr : Registry.Alike r r') :
    Registry.Alike (s.release r) (s'.release r') := by
  unfold Sequence.release
  rw [hs.context_eq]
  exact hr.setBusy _ false

theorem putBack (hs : s.Alike s') (hr : Registry.Alike r r') (path : String) (generation : Nat)
    {taken taken' : List (Callback Action)} (htaken : Callbacks.Alike taken taken') :
    Registry.Alike (s.putBack r path generation taken)
      (s'.putBack r' path generation taken') := by
  unfold Sequence.putBack
  rw [hs.context_eq, hr.find?]
  split
  · refine hr.modify _ fun c d hcd => ?_
    obtain ⟨ha, hd⟩ := hcd
    dsimp only
    split
    · exact .intro (htaken.append ha) hd
    · exact .intro ha hd
  · exact hr

theorem proceed (hs : s.Alike s') (hr : Registry.Alike r r') :
    Next.Alike (s.proceed r).1 (s'.proceed r').1 ∧
      Registry.Alike (s.proceed r).2 (s'.proceed r').2 := by
  have hqueue : (r'.context? s.context).map Context.queue =
      (r.context? s.context).map Context.queue :=
    hr.map_context? s.context fun c d hcd => by cases hcd; rfl
  unfold Sequence.proceed
  rw [hs.context_eq, hqueue]
  split
  · refine ⟨.again (.intro _ (.starting _)), hr.modify _ fun c d hcd => ?_⟩
    obtain ⟨ha, hd⟩ := hcd
    exact .intro ha hd
  · exact ⟨.ended, hs.release hr⟩

theorem step (hs : s.Alike s') (hr : Registry.Alike r r') :
    Next.Alike (s.step r).1 (s'.step r').1 ∧ Registry.Alike (s.step r).2.1 (s'.step r').2.1 ∧
      (s'.step r').2.2 = (s.step r).2.2 := by
  have hpath := hs.path_eq hr
  cases hs with
  | intro context stage =>
    cases stage with
    | starting job =>
      refine ⟨.again (.intro _ (.disposing job ?_)), hr.modify _ fun c d hcd => ?_, rfl⟩
      · exact hr.callbacks _ _ fun c d hcd => by cases hcd; assumption
      · obtain ⟨ha, hd⟩ := hcd
        exact .intro ha .nil
    | disposing job left =>
      cases left with
      | nil =>
        cases job with
        | update module =>
          refine ⟨.again (.intro _ ?_), hr.modify _ fun c d hcd => ?_, rfl⟩
          · have hgeneration : (r'.context? context).map Context.generation =
                (r.context? context).map Context.generation :=
              hr.map_context? context fun c d hcd => by cases hcd; rfl
            have htaken := hr.callbacks Context.accepts context
              fun c d hcd => by cases hcd; assumption
            dsimp only
            rw [hgeneration]
            exact .accepting module _ htaken htaken
          · obtain ⟨ha, hd⟩ := hcd
            exact .intro .nil hd
        | prune =>
          simp only [Sequence.step, hpath, and_true]
          refine ⟨.ended, Sequence.Alike.release (.intro _ (.disposing _ .nil)) ?_⟩
          refine (hr.unregister _ _).modify _ fun c d hcd => ?_
          obtain ⟨ha, hd⟩ := hcd
          exact .intro ha hd
      | cons hfirst hrest =>
        exact ⟨.call .dispose none hfirst (.intro _ (.disposing job hrest)), hr, rfl⟩
    | accepting module generation taken left =>
      cases left with
      | nil =>
        have hs : Sequence.Alike _ _ := .intro context (.accepting module generation taken .nil)
        simp only [Sequence.step, hpath, and_true]
        exact hs.proceed (hs.putBack hr _ generation taken)
      | cons hfirst hrest =>
        exact ⟨.call .accept module hfirst (.intro _ (.accepting module generation taken hrest)),
          hr, rfl⟩

end Sequence.Alike

/-- The sequence that has called what stands on some frames. -/
def caller? : List Frame → Option Running
  | .sequence _ s :: _ => some s
  | _ => none

theorem caller?_eq_some {frames : List Frame} {s : Running} (h : caller? frames = some s) :
    ∃ answer below, frames = .sequence answer s :: below := by
  unfold caller? at h
  split at h
  · cases h
    exact ⟨_, _, rfl⟩
  · cases h

/-- Frames that go on in the same way; a script that was called as a callback may end in its own. -/
inductive Frame.Alike : Bool → Frame → Frame → Prop where
  | script {free : Bool} (scope : Scope) {as bs : List Action} (h : Script.Alike free as bs) :
      Frame.Alike free (.script scope as) (.script scope bs)
  | request {free : Bool} (path : String) (job : Job Value) :
      Frame.Alike free (.request path job) (.request path job)
  | sequence {free : Bool} (answer : Returned) {s s' : Running} (h : s.Alike s') :
      Frame.Alike free (.sequence answer s) (.sequence answer s')
  | message {free : Bool} (m : Message) : Frame.Alike free (.message m) (.message m)
  | progress {free : Bool} (p : Progress) : Frame.Alike free (.progress p) (.progress p)

inductive Frames.Alike : List Frame → List Frame → Prop where
  | nil : Frames.Alike [] []
  | cons {f g : Frame} {fs gs : List Frame} (frame : Frame.Alike (caller? fs).isSome f g)
      (below : Frames.Alike fs gs) : Frames.Alike (f :: fs) (g :: gs)

theorem Frames.Alike.refl (frames : List Frame) : Frames.Alike frames frames := by
  induction frames with
  | nil => exact .nil
  | cons frame below ih =>
    refine .cons ?_ ih
    cases frame with
    | script scope rest => exact .script scope (.refl _ _)
    | request path job => exact .request path job
    | sequence answer s => exact .sequence answer (.refl s)
    | message m => exact .message m
    | progress p => exact .progress p

/-- The report that a callback did not end well. -/
def Entry.report? : Entry → Option Log.Event
  | .event e =>
    if e.level = .error ∧ (e.message = "hot callback failed" ∨ e.message = "hot callback panicked")
    then some e else none
  | _ => none

namespace World

def reports (w : World) : List Log.Event := w.log.filterMap Entry.report?

def restOfLog (w : World) : List Entry := w.log.filter fun e => e.report?.isNone

/-- Worlds that differ in how callbacks end and in what was reported of that. -/
structure Alike (v w : World) : Prop where
  registry : Registry.Alike v.registry w.registry
  handles : w.handles = v.handles
  openGates : w.openGates = v.openGates
  modules : List.Forall₂ (fun m n => n.1 = m.1 ∧ Script.Alike false m.2 n.2) v.modules w.modules
  versions : w.versions = v.versions
  tasks : List.Forall₂ Frames.Alike v.tasks w.tasks
  log : w.restOfLog = v.restOfLog

end World

end ModuleHost.Hot
