import ModuleHost.Proofs.Hot.Alike
import ModuleHost.Proofs.Hot.Change

/-! Alike worlds go on in lockstep: whatever turn is taken in both, they do the same and stay
alike. There is one lemma for each function that a turn consists of. -/

namespace ModuleHost.Hot

open ModuleHost.Json

def AlikeWith {β : Type} (p q : World × β) : Prop := p.1.Alike q.1 ∧ q.2 = p.2

namespace World.Alike

variable {v w : World} {β : Type}

theorem refl (w : World) : w.Alike w where
  registry := .refl _
  handles := rfl
  openGates := rfl
  modules := List.forall₂_same.mpr fun _ _ => ⟨rfl, .refl _ _⟩
  versions := rfl
  tasks := List.forall₂_same.mpr fun frames _ => .refl frames
  log := rfl

/-! ### Records -/

theorem record (h : v.Alike w) (entry : Entry) : (v.record entry).Alike (w.record entry) where
  __ := h
  log := by simpa [restOfLog, World.record] using h.log

theorem report (h : v.Alike w) (events : List Log.Event) :
    (v.report events).Alike (w.report events) where
  __ := h
  log := by simpa [restOfLog, World.report] using h.log

theorem recordAnswer (h : v.Alike w) (action : String) (answer : Answer) :
    (v.recordAnswer action answer).Alike (w.recordAnswer action answer) := by
  cases answer
  case nothing => exact h
  all_goals exact h.record _

theorem withRegistry {r s : Contexts} (h : v.Alike w) (hr : Registry.Alike r s) :
    { v with registry := r }.Alike { w with registry := s } where
  __ := h
  registry := hr

theorem setFrames {fs gs : List Frame} (h : v.Alike w) (t : Nat) (hframes : Frames.Alike fs gs) :
    (v.setFrames t fs).Alike (w.setFrames t gs) where
  __ := h
  tasks := by
    obtain ⟨hlen, hget⟩ := List.forall₂_iff_get.mp h.tasks
    refine List.forall₂_iff_get.mpr ⟨by simp [World.setFrames, hlen], fun i hi hi' => ?_⟩
    simp only [World.setFrames, List.length_set] at hi hi'
    simp only [World.setFrames, List.get_eq_getElem, List.getElem_set]
    split
    · exact hframes
    · exact hget i hi hi'

theorem bind (h : v.Alike w) (name : Option String) (id : Nat) :
    (v.bind name id).Alike (w.bind name id) := by
  cases name with
  | none => exact h
  | some name => exact { __ := h, handles := congrArg ((name, id) :: ·) h.handles }

theorem reportFailure {s s' : Running} (h : v.Alike w) (first second : Option Failure) :
    (v.reportFailure s first).Alike (w.reportFailure s' second) where
  registry := by cases first <;> cases second <;> exact h.registry
  handles := by cases first <;> cases second <;> exact h.handles
  openGates := by cases first <;> cases second <;> exact h.openGates
  modules := by cases first <;> cases second <;> exact h.modules
  versions := by cases first <;> cases second <;> exact h.versions
  tasks := by cases first <;> cases second <;> exact h.tasks
  log := by
    have hsilent : ∀ (u : World) (s : Running) (failure : Option Failure),
        (u.reportFailure s failure).restOfLog = u.restOfLog := fun u s failure => by
      rcases failure with _ | (_ | _) <;>
        simp [World.reportFailure, World.report, restOfLog, Failure.event, Entry.report?]
    rw [hsilent, hsilent, h.log]

/-! ### Effects -/

theorem alter {f g : Contexts → Contexts} (h : v.Alike w)
    (hfg : Registry.Alike (f v.registry) (g w.registry)) : AlikeWith (v.alter f) (w.alter g) :=
  ⟨h.withRegistry hfg, rfl⟩

theorem handle? (h : v.Alike w) (name : String) : w.handle? name = v.handle? name := by
  simp [World.handle?, h.handles]

theorem withHandle {f g : Nat → World × Answer} (h : v.Alike w) (name : String)
    (hact : ∀ id, AlikeWith (f id) (g id)) :
    AlikeWith (v.withHandle name f) (w.withHandle name g) := by
  unfold World.withHandle
  rw [h.handle?]
  split
  · exact hact _
  · exact ⟨h, rfl⟩

theorem withData {f g : Nat → Data → World × Answer} (h : v.Alike w) (scope : Scope)
    (name : Option String) (hact : ∀ id data, AlikeWith (f id data) (g id data)) :
    AlikeWith (v.withData scope name f) (w.withData scope name g) := by
  have hdata : ∀ id, (w.registry.context? id).map Context.data =
      (v.registry.context? id).map Context.data :=
    fun id => h.registry.map_context? id fun c d hcd => by cases hcd; rfl
  unfold World.withData
  simp only [hdata]
  split
  · exact hact _ _
  · exact h.withHandle _ fun id => hact _ _

theorem stateOf (h : v.Alike w) (id : Nat) : w.stateOf id = v.stateOf id := by
  unfold World.stateOf
  rw [h.registry.map_context? id fun c d hcd => by rw [hcd.state_eq]]

theorem perform_same (h : v.Alike w) (scope : Scope) (effect : Effect Action) :
    AlikeWith (v.perform scope effect) (w.perform scope effect) := by
  cases effect with
  | note text => exact ⟨h.record _, rfl⟩
  | showModule => exact ⟨h.record _, rfl⟩
  | create path handle =>
    obtain ⟨hid, hevents, hregistry⟩ := h.registry.create path
    have hw := ((h.withRegistry hregistry).report (v.registry.create path).2.2).bind handle
      (v.registry.create path).1
    simp only [perform, hid, hevents]
    exact ⟨hw, hw.stateOf _⟩
  | get path handle =>
    simp only [perform, h.registry.find?]
    split
    · exact ⟨h.bind _ _, rfl⟩
    · exact ⟨h, rfl⟩
  | contains path => exact ⟨h, by simp [perform, Registry.contains, h.registry.find?]⟩
  | list => exact ⟨h, by simp [perform, Registry.paths, h.registry.registered]⟩
  | count => exact ⟨h, by simp [perform, Registry.size, h.registry.registered]⟩
  | accept handle callback =>
    exact h.withHandle handle fun id => h.alter (h.registry.addAccept id (.refl _))
  | dispose handle callback =>
    exact h.withHandle handle fun id => h.alter (h.registry.addDispose id (.refl _))
  | acceptSelf handle => exact h.withHandle handle fun id => h.alter (h.registry.acceptSelf id)
  | onPrune handle => exact h.withHandle handle fun _ => ⟨h, rfl⟩
  | listen handle => exact h.withHandle handle fun _ => ⟨h, rfl⟩
  | send handle => exact h.withHandle handle fun _ => ⟨h, rfl⟩
  | invalidate handle message =>
    refine h.withHandle handle fun id => ?_
    rw [h.registry.map_context? id fun c d hcd => by cases hcd; rfl]
    exact ⟨h.report _, rfl⟩
  | set handle key value =>
    exact h.withData scope handle fun id data => ⟨h.withRegistry (h.registry.setData id _), rfl⟩
  | read handle key => exact h.withData scope handle fun _ _ => ⟨h, rfl⟩
  | delete handle key =>
    exact h.withData scope handle fun id data => ⟨h.withRegistry (h.registry.setData id _), rfl⟩
  | size handle => exact h.withData scope handle fun _ _ => ⟨h, rfl⟩
  | displayData handle => exact h.withData scope handle fun _ _ => ⟨h, rfl⟩
  | display handle =>
    refine h.withHandle handle fun id => ⟨h, ?_⟩
    rw [h.registry.map_context? id fun c d hcd => hcd.display_eq]
  | same first second =>
    exact h.withHandle first fun _ => h.withHandle second fun _ => ⟨h, rfl⟩
  | state handle => exact h.withHandle handle fun id => ⟨h, h.stateOf id⟩
  | openGate gate => exact ⟨{ __ := h, openGates := congrArg (gate :: ·) h.openGates }, rfl⟩
  | closeGate gate =>
    exact ⟨{ __ := h, openGates := congrArg (List.filter (· ≠ gate)) h.openGates }, rfl⟩

theorem perform {e f : Effect Action} (h : v.Alike w) (scope : Scope) (he : e.Alike f) :
    AlikeWith (v.perform scope e) (w.perform scope f) := by
  cases he with
  | same => exact h.perform_same scope e
  | accept handle hcallback =>
    exact h.withHandle handle fun id => h.alter (h.registry.addAccept id hcallback)
  | dispose handle hcallback =>
    exact h.withHandle handle fun id => h.alter (h.registry.addDispose id hcallback)

/-! ### Tasks -/

theorem addTask {f g : Frame} (h : v.Alike w) (hframe : Frame.Alike false f g) :
    AlikeWith (v.addTask f) (w.addTask g) :=
  ⟨{ __ := h, tasks := List.rel_append h.tasks (.cons (.cons hframe .nil) .nil) },
    by simp [World.addTask, h.tasks.length_eq]⟩

theorem start {c d : Command Action} (h : v.Alike w) (hcommand : c.Alike d) :
    AlikeWith (v.start c) (w.start d) := by
  cases hcommand with
  | run hs => exact h.addTask (.script {} hs)
  | same =>
    cases c with
    | apply path module => exact h.addTask (.request path (.update module))
    | prune path => exact h.addTask (.request path .prune)
    | run steps => exact h.addTask (.script {} (.refl _ _))
    | event event => exact h.addTask (.progress _)
    | message text =>
      simp only [World.start]
      split
      · exact h.addTask (.message _)
      · exact ⟨h, rfl⟩

theorem advanceEvent (h : v.Alike w) (p : Progress) (returned : Returned) :
    (v.advanceEvent p returned).1.Alike (w.advanceEvent p returned).1 ∧
      (w.advanceEvent p returned).2 = (v.advanceEvent p returned).2 := by
  unfold World.advanceEvent
  split <;> first | exact ⟨h, rfl⟩ | exact ⟨h.report _, rfl⟩

theorem leaveCallback {answer : Returned} {s s' : Running} {fs gs : List Frame} (h : v.Alike w)
    (t : Nat) (hs : s.Alike s') (hbelow : Frames.Alike fs gs) (first second : Option Failure) :
    (v.leave t (.sequence answer s :: fs) (.finished first)).Alike
      (w.leave t (.sequence answer s' :: gs) (.finished second)) :=
  (h.setFrames t (.cons (.sequence answer hs) hbelow)).reportFailure first second

theorem leave {fs gs : List Frame} (h : v.Alike w) (t : Nat) (hbelow : Frames.Alike fs gs)
    (returned : Returned) : (v.leave t fs returned).Alike (w.leave t gs returned) := by
  cases hbelow with
  | nil => exact (h.setFrames t .nil).record _
  | cons hframe hrest =>
    have hset := h.setFrames t (.cons hframe hrest)
    cases hframe with
    | script scope hscript => exact hset.recordAnswer _ _
    | request path job => exact hset
    | sequence answer hs =>
      cases returned with
      | finished failure => exact h.leaveCallback t hs hrest failure failure
      | _ => exact hset
    | message m => exact hset
    | progress p =>
      obtain ⟨hw, hframes⟩ := h.advanceEvent p returned
      simp only [World.leave, hframes]
      refine hw.setFrames t ?_
      -- what an event goes on with are requests and its own progress
      rcases (v.advanceEvent_spec p returned).2.2 with ⟨q, hq⟩ | ⟨path, job, q, hq⟩
      · rw [hq]
        exact .cons (.progress q) hrest
      · rw [hq]
        exact .cons (.request path job) (.cons (.progress q) hrest)

theorem act_effect {e f : Effect Action} {as bs : List Action} {fs gs : List Frame}
    (h : v.Alike w) (t : Nat) (scope : Scope) (he : e.Alike f)
    (hnext : Frames.Alike (.script scope as :: fs) (.script scope bs :: gs)) :
    AlikeWith (v.act t scope (.effect e) as fs) (w.act t scope (.effect f) bs gs) := by
  obtain ⟨hw, hanswer⟩ := h.perform scope he
  have hname : f.name = e.name := by cases he <;> rfl
  simp only [World.act, hanswer, hname]
  exact ⟨(hw.setFrames t hnext).recordAnswer _ _, rfl⟩

theorem act_spawn {c d : Command Action} {as bs : List Action} {fs gs : List Frame}
    (h : v.Alike w) (t : Nat) (scope : Scope) (hc : c.Alike d)
    (hnext : Frames.Alike (.script scope as :: fs) (.script scope bs :: gs)) :
    AlikeWith (v.act t scope (.spawn c) as fs) (w.act t scope (.spawn d) bs gs) := by
  obtain ⟨hw, hanswer⟩ := h.start hc
  simp only [World.act, hanswer]
  exact ⟨(hw.setFrames t hnext).recordAnswer _ _, rfl⟩

theorem act_same {a : Action} {as bs : List Action} {fs gs : List Frame} (h : v.Alike w) (t : Nat)
    (scope : Scope) (hbelow : Frames.Alike fs gs)
    (hrest : Script.Alike (caller? fs).isSome as bs) :
    AlikeWith (v.act t scope a as fs) (w.act t scope a bs gs) := by
  have hnext : Frames.Alike (.script scope as :: fs) (.script scope bs :: gs) :=
    .cons (.script scope hrest) hbelow
  cases a with
  | effect effect => exact h.act_effect t scope (.same effect) hnext
  | wait gate =>
    simp only [World.act, h.openGates]
    split
    · exact ⟨h.setFrames t hnext, rfl⟩
    · exact ⟨h, rfl⟩
  | yield => exact ⟨h.setFrames t hnext, rfl⟩
  | fail reason => exact ⟨h.leave t hbelow _, rfl⟩
  | panic payload => exact ⟨h.leave t hbelow _, rfl⟩
  | ifModule value steps =>
    exact ⟨h.setFrames t (.cons (.script scope (hrest.append _)) hbelow), rfl⟩
  | apply path module => exact ⟨h.setFrames t (.cons (.request path _) hnext), rfl⟩
  | prune path => exact ⟨h.setFrames t (.cons (.request path _) hnext), rfl⟩
  | spawn command => exact h.act_spawn t scope (.same command) hnext

theorem stepFrame_ended {scope : Scope} {as : List Action} {failure : Option Failure}
    (hover : outcome? as = some failure) (u : World) (t : Nat) (below : List Frame) :
    u.stepFrame t (.script scope as) below = (u.leave t below (.finished failure), .advanced) := by
  unfold outcome? at hover
  split at hover
  all_goals cases hover
  all_goals rfl

theorem stepScript {as bs : List Action} {fs gs : List Frame} (h : v.Alike w) (t : Nat)
    (scope : Scope) (hscript : Script.Alike (caller? fs).isSome as bs)
    (hbelow : Frames.Alike fs gs) :
    AlikeWith (v.stepFrame t (.script scope as) fs) (w.stepFrame t (.script scope bs) gs) := by
  generalize hfree : (caller? fs).isSome = free at hscript
  cases hscript with
  | nil => exact ⟨h.leave t hbelow _, rfl⟩
  | @ended _ _ first second ends ends' =>
    rw [stepFrame_ended ends, stepFrame_ended ends']
    cases hbelow with
    | nil => cases hfree
    | cons hframe hrest =>
      cases hframe with
      | sequence answer hs => exact ⟨h.leaveCallback t hs hrest first second, rfl⟩
      | _ => cases hfree
  | cons action rest =>
    subst hfree
    have hnext : Frames.Alike (.script scope _ :: fs) (.script scope _ :: gs) :=
      .cons (.script scope rest) hbelow
    cases action with
    | same a => exact h.act_same t scope hbelow rest
    | effect he => exact h.act_effect t scope he hnext
    | spawn hc => exact h.act_spawn t scope hc hnext
  | choice value taken skipped =>
    subst hfree
    refine ⟨h.setFrames t (.cons (.script scope ?_) hbelow), rfl⟩
    split
    · exact taken
    · exact skipped

theorem request (h : v.Alike w) (t : Nat) (path : String) (job : Job Value) {fs gs : List Frame}
    (hbelow : Frames.Alike fs gs) :
    (v.request t path job fs).Alike (w.request t path job gs) := by
  unfold World.request
  rw [h.registry.find?]
  split
  · split
    · exact h.leave t hbelow _
    · exact (h.report _).leave t hbelow _
  · rename_i id _
    obtain ⟨hsequence, hregistry, hevents⟩ := h.registry.request id job
    have hw := (h.withRegistry hregistry).report (Sequence.request v.registry id job).2.2
    simp only [hsequence, hevents]
    split
    · exact hw.setFrames t (.cons (.sequence _ (.refl _)) hbelow)
    · exact hw.leave t hbelow _

theorem advanceSequence {answer : Returned} {s s' : Running} {fs gs : List Frame} (h : v.Alike w)
    (t : Nat) (hs : s.Alike s') (hbelow : Frames.Alike fs gs) :
    (v.advanceSequence t answer s fs).Alike (w.advanceSequence t answer s' gs) := by
  obtain ⟨hnext, hregistry, hevents⟩ := hs.step h.registry
  have hw := (h.withRegistry hregistry).report (s.step v.registry).2.2
  unfold World.advanceSequence
  simp only [hevents]
  generalize (s.step v.registry).1 = next at hnext ⊢
  generalize (s'.step w.registry).1 = next' at hnext ⊢
  cases hnext with
  | again hs => exact hw.setFrames t (.cons (.sequence answer hs) hbelow)
  | call phase module hcallback hs =>
    dsimp only
    rw [hs.context_eq]
    exact hw.setFrames t (.cons (.script _ hcallback) (.cons (.sequence answer hs) hbelow))
  | ended => exact hw.leave t hbelow answer

theorem module? (h : v.Alike w) (path : String) :
    v.modules.find? (·.1 = path) = none ∧ w.modules.find? (·.1 = path) = none ∨
      ∃ m n, v.modules.find? (·.1 = path) = some m ∧ w.modules.find? (·.1 = path) = some n ∧
        Script.Alike false m.2 n.2 := by
  have hmodules := h.modules
  generalize v.modules = ms at hmodules ⊢
  generalize w.modules = ns at hmodules ⊢
  induction hmodules with
  | nil => exact .inl ⟨rfl, rfl⟩
  | @cons m n ms ns hmn _ ih =>
    rw [List.find?_cons, List.find?_cons, hmn.1]
    split
    · exact .inr ⟨m, n, rfl, rfl, hmn.2⟩
    · exact ih

theorem load (h : v.Alike w) (t : Nat) (path : String) (left : List String) {fs gs : List Frame}
    (hbelow : Frames.Alike fs gs) : (v.load t path left fs).Alike (w.load t path left gs) := by
  let version := ((v.versions.find? (·.1 = path)).map Prod.snd).getD 0 + 1
  have hversioned : { v with versions := (path, version) :: v.versions }.Alike
      { w with versions := (path, version) :: v.versions } := { __ := h, versions := rfl }
  have hw := hversioned.record (.loaded path version)
  unfold World.load
  rcases h.module? path with ⟨hv, hnone⟩ | ⟨m, n, hv, hsome, hbody⟩
  · simp only [h.versions, World.record, hv, hnone]
    exact hw.leave t (.cons (.progress _) hbelow) _
  · simp only [h.versions, World.record, hv, hsome]
    exact hw.setFrames t (.cons (.script {} hbody) (.cons (.progress _) hbelow))

theorem advanceProgress (h : v.Alike w) (t : Nat) (p : Progress) {fs gs : List Frame}
    (hbelow : Frames.Alike fs gs) :
    (v.advanceProgress t p fs).Alike (w.advanceProgress t p gs) := by
  unfold World.advanceProgress
  split
  · exact h.leave t hbelow _
  · exact h.leave t hbelow _
  · exact ((h.report _).record _).load t _ _ hbelow
  · exact (h.record _).setFrames t (.cons (.request _ _) (.cons (.progress _) hbelow))
  · exact h.leave t hbelow _
  · exact h
  · exact h

theorem stepFrame {f g : Frame} {fs gs : List Frame} (h : v.Alike w) (t : Nat)
    (hframe : Frame.Alike ((caller? fs).isSome) f g) (hbelow : Frames.Alike fs gs) :
    AlikeWith (v.stepFrame t f fs) (w.stepFrame t g gs) := by
  cases hframe with
  | script scope hscript => exact h.stepScript t scope hscript hbelow
  | request path job => exact ⟨h.request t path job hbelow, rfl⟩
  | sequence answer hs => exact ⟨h.advanceSequence t hs hbelow, rfl⟩
  | message m => exact ⟨(h.report _).setFrames t (.cons (.progress _) hbelow), rfl⟩
  | progress p => exact ⟨h.advanceProgress t p hbelow, rfl⟩

theorem task (h : v.Alike w) (t : Nat) :
    v.tasks[t]? = none ∧ w.tasks[t]? = none ∨
      ∃ fs gs, v.tasks[t]? = some fs ∧ w.tasks[t]? = some gs ∧ Frames.Alike fs gs := by
  obtain ⟨hlen, hget⟩ := List.forall₂_iff_get.mp h.tasks
  by_cases ht : t < v.tasks.length
  · have ht' := hlen ▸ ht
    exact .inr ⟨_, _, List.getElem?_eq_getElem ht, List.getElem?_eq_getElem ht', hget t ht ht'⟩
  · have ht' := hlen ▸ ht
    exact .inl ⟨List.getElem?_eq_none (Nat.le_of_not_lt ht),
      List.getElem?_eq_none (Nat.le_of_not_lt ht')⟩

theorem frames (h : v.Alike w) (t : Nat) :
    Frames.Alike ((v.tasks[t]?).getD []) ((w.tasks[t]?).getD []) := by
  rcases h.task t with ⟨hv, hw⟩ | ⟨fs, gs, hv, hw, hframes⟩
  · rw [hv, hw]
    exact .nil
  · rw [hv, hw]
    exact hframes

theorem step (h : v.Alike w) (t : Nat) : AlikeWith (v.step t) (w.step t) := by
  unfold World.step
  rcases h.task t with ⟨hv, hw⟩ | ⟨fs, gs, hv, hw, hframes⟩
  · rw [hv, hw]
    exact ⟨h, rfl⟩
  · rw [hv, hw]
    cases hframes with
    | nil => exact ⟨h, rfl⟩
    | cons hframe hbelow => exact h.stepFrame t hframe hbelow

theorem releaseAll {r s : Contexts} {fs gs : List Frame} (hframes : Frames.Alike fs gs)
    (hr : Registry.Alike r s) : Registry.Alike (World.releaseAll r fs) (World.releaseAll s gs) := by
  induction hframes generalizing r s with
  | nil => exact hr
  | cons hframe _ ih =>
    cases hframe with
    | sequence answer hs => exact ih (hs.release hr)
    | _ => exact ih hr

theorem cancel (h : v.Alike w) (t : Nat) : AlikeWith (v.cancel t) (w.cancel t) := by
  unfold World.cancel
  rcases h.task t with ⟨hv, hw⟩ | ⟨fs, gs, hv, hw, hframes⟩
  · rw [hv, hw]
    exact ⟨h, rfl⟩
  · rw [hv, hw]
    have hfreed := releaseAll hframes h.registry
    cases hframes with
    | nil => exact ⟨h, rfl⟩
    | cons hframe hbelow => exact ⟨(h.withRegistry hfreed).setFrames t .nil, rfl⟩

end World.Alike

/-! ### Turns -/

inductive Operation.Alike : Operation → Operation → Prop where
  | effect {e f : Effect Action} (h : e.Alike f) : Operation.Alike (.effect e) (.effect f)
  | start {c d : Command Action} (h : c.Alike d) : Operation.Alike (.start c) (.start d)
  | cancel (t : Nat) : Operation.Alike (.cancel t) (.cancel t)

inductive Turn.Alike : Turn → Turn → Prop where
  | operate {o p : Operation} (h : o.Alike p) : Turn.Alike (.operate o) (.operate p)
  | step (t : Nat) : Turn.Alike (.step t) (.step t)

theorem Turn.Alike.refl (turn : Turn) : turn.Alike turn := by
  cases turn with
  | step t => exact .step t
  | operate operation =>
    cases operation with
    | effect effect => exact .operate (.effect (.same effect))
    | start command => exact .operate (.start (.same command))
    | cancel t => exact .operate (.cancel t)

/-- The same happens, with the same callbacks up to their ends. -/
inductive Happening.Alike : Happening → Happening → Prop where
  | same (h : Happening) : Happening.Alike h h
  | accepts (id : Nat) {c d : Callback Action} (h : c.Alike d) :
      Happening.Alike (.accepts id c) (.accepts id d)
  | disposes (id : Nat) {c d : Callback Action} (h : c.Alike d) :
      Happening.Alike (.disposes id c) (.disposes id d)
  | called (id : Nat) (phase : Phase) {c d : Callback Action} (module : Option Value)
      (h : c.Alike d) : Happening.Alike (.called id phase c module) (.called id phase d module)

abbrev Happenings.Alike : List Happening → List Happening → Prop :=
  List.Forall₂ Happening.Alike

theorem Happenings.Alike.refl (hs : List Happening) : Happenings.Alike hs hs :=
  List.forall₂_same.mpr fun h _ => .same h

theorem Happenings.Alike.map {ids : List Nat} {f g : Nat → Happening}
    (h : ∀ id, (f id).Alike (g id)) : Happenings.Alike (ids.map f) (ids.map g) := by
  induction ids with
  | nil => exact .nil
  | cons id ids ih => exact .cons (h id) ih

namespace World.Alike

variable {v w : World}

theorem operate {o p : Operation} (h : v.Alike w) (hop : o.Alike p) :
    AlikeWith (v.operate o) (w.operate p) := by
  cases hop with
  | effect he => exact h.perform {} he
  | start hc => exact h.start hc
  | cancel t => exact h.cancel t

theorem turn {turn turn' : Turn} (h : v.Alike w) (hturn : turn.Alike turn') :
    (v.turn turn).Alike (w.turn turn') := by
  cases hturn with
  | operate hop => exact (h.operate hop).1
  | step t => exact (h.step t).1

theorem effectHappenings {e f : Effect Action} (h : v.Alike w) (scope : Scope) (he : e.Alike f) :
    Happenings.Alike (v.effectHappenings scope e) (w.effectHappenings scope f) := by
  have hdata : ∀ handle, w.dataOf? scope handle = v.dataOf? scope handle := fun handle => by
    simp only [World.dataOf?, h.handle?]
  cases he with
  | accept handle hc =>
    simp only [World.effectHappenings, h.handle?]
    exact .map fun id => .accepts id hc
  | dispose handle hc =>
    simp only [World.effectHappenings, h.handle?]
    exact .map fun id => .disposes id hc
  | same =>
    have heq : w.effectHappenings scope e = v.effectHappenings scope e := by
      cases e <;> simp [World.effectHappenings, h.handle?, hdata, h.registry.find?,
        h.registry.contexts.length_eq]
    rw [heq]
    exact .refl _

theorem sequenceHappening {s s' : Running} (hs : s.Alike s') :
    s.happening.Alike s'.happening := by
  cases hs with
  | intro context stage =>
    cases stage with
    | starting job => exact .same _
    | disposing job left =>
      cases left with
      | nil => cases job <;> exact .same _
      | cons hfirst hrest => exact .called context .dispose none hfirst
    | accepting module generation taken left =>
      cases left with
      | nil => exact .same _
      | cons hfirst hrest => exact .called context .accept module hfirst

/-- The callback that returns when the script on some frames comes to its end. -/
def returning (below : List Frame) : List Happening :=
  (caller? below).toList.map fun s => .returned s.context s.phase

theorem stepHappenings_ended {scope : Scope} {as : List Action} {failure : Option Failure}
    (hover : outcome? as = some failure) (u : World) (below : List Frame) :
    u.stepHappenings (.script scope as :: below) = returning below := by
  unfold outcome? at hover
  split at hover
  all_goals cases hover
  all_goals rcases below with _ | ⟨_ | _ | _ | _ | _, below⟩ <;> rfl

theorem returning_eq {fs gs : List Frame} (hframes : Frames.Alike fs gs) :
    returning gs = returning fs := by
  cases hframes with
  | nil => rfl
  | cons hframe hbelow =>
    cases hframe with
    | sequence answer hs =>
      simp [returning, caller?, hs.context_eq, hs.phase_eq]
    | _ => rfl

theorem stepHappenings {fs gs : List Frame} (h : v.Alike w) (hframes : Frames.Alike fs gs) :
    Happenings.Alike (v.stepHappenings fs) (w.stepHappenings gs) := by
  cases hframes with
  | nil => exact .nil
  | @cons f g fs gs hframe hbelow =>
    cases hframe with
    | script scope hscript =>
      have hreturned : ∀ {as bs : List Action} {first second : Option Failure},
          outcome? as = some first → outcome? bs = some second → Happenings.Alike
            (v.stepHappenings (.script scope as :: fs))
            (w.stepHappenings (.script scope bs :: gs)) := fun ends ends' => by
        rw [stepHappenings_ended ends, stepHappenings_ended ends', returning_eq hbelow]
        exact .refl _
      generalize (caller? fs).isSome = free at hscript
      cases hscript with
      | nil => exact hreturned rfl rfl
      | ended ends ends' => exact hreturned ends ends'
      | choice => exact .nil
      | @cons _ a b as bs action rest =>
        cases action with
        | effect he => exact h.effectHappenings scope he
        | spawn hc => exact .nil
        | same =>
          cases a with
          | effect effect => exact h.effectHappenings scope (.same effect)
          | fail reason => exact hreturned rfl rfl
          | panic payload => exact hreturned rfl rfl
          | _ => exact .nil
    | request path job =>
      simp only [World.stepHappenings, h.registry.find?]
      exact .refl _
    | sequence answer hs => exact .cons (sequenceHappening hs) .nil
    | message m => exact .nil
    | progress p => exact .nil

theorem flightsIn {fs gs : List Frame} (hframes : Frames.Alike fs gs) (calling : Bool) :
    (Hot.flightsIn calling gs).map Flight.context =
      (Hot.flightsIn calling fs).map Flight.context := by
  induction hframes generalizing calling with
  | nil => rfl
  | cons hframe _ ih =>
    cases hframe with
    | sequence answer hs => simp [Hot.flightsIn, Flight.context, hs.context_eq, ih]
    | _ => exact ih true

theorem happenings {turn turn' : Turn} (h : v.Alike w) (hturn : turn.Alike turn') :
    Happenings.Alike (v.happenings turn) (w.happenings turn') := by
  cases hturn with
  | step t => exact h.stepHappenings (h.frames t)
  | operate hop =>
    cases hop with
    | effect he => exact h.effectHappenings {} he
    | start hc => exact .nil
    | cancel t =>
      have hdropped := congrArg (List.map Happening.dropped) (flightsIn (h.frames t) false)
      simp only [List.map_map] at hdropped
      simp only [World.happenings]
      exact hdropped ▸ .refl _

/-- In alike runs the same happens, and they leave alike worlds. -/
theorem run {turns turns' : List Turn} (h : v.Alike w)
    (hturns : List.Forall₂ Turn.Alike turns turns') :
    Happenings.Alike (v.history turns) (w.history turns') ∧
      (v.after turns).Alike (w.after turns') := by
  induction hturns generalizing v w with
  | nil => exact ⟨.nil, h⟩
  | cons hturn _ ih =>
    obtain ⟨hlater, hafter⟩ := ih (h.turn hturn)
    exact ⟨List.rel_append (h.happenings hturn) hlater, hafter⟩

end World.Alike

end ModuleHost.Hot
