import ModuleHost.Proofs.Hot.Lockstep
import ModuleHost.Proofs.Hot.Provenance

/-! How callbacks end and what comes of it. Runs that differ in nothing else have the same calls and
leave the same contexts; only the reports tell them apart, one for each callback that did not end
well. -/

namespace ModuleHost.Hot

open ModuleHost.Json

/-! ### Endings -/

/-- A callback that has ended, and how. -/
structure Ending where
  context : Nat
  phase : Phase
  path : String
  failure : Option Failure

def Ending.report? (e : Ending) : Option Log.Event := e.failure.map (Failure.event e.phase e.path)

/-- Which callback has ended. -/
def Ending.callback (e : Ending) : Nat × Phase × String := (e.context, e.phase, e.path)

def Happening.returned? : Happening → Option (Nat × Phase)
  | .returned id phase => some (id, phase)
  | _ => none

namespace World

def ending? (w : World) : List Frame → Option Ending
  | .script _ rest :: below =>
    (outcome? rest).bind fun failure =>
      (caller? below).map fun s => ⟨s.context, s.phase, s.path w.registry, failure⟩
  | _ => none

def endingsAt (w : World) : Turn → List Ending
  | .step t => (w.ending? ((w.tasks[t]?).getD [])).toList
  | .operate _ => []

/-- The callbacks that end in a run, in order. -/
def endings (w : World) : List Turn → List Ending
  | [] => []
  | turn :: turns => w.endingsAt turn ++ (w.turn turn).endings turns

/-! ### Reports -/

theorem record_reports (w : World) {entry : Entry} (h : entry.report? = none) :
    (w.record entry).reports = w.reports := by
  simp [reports, record, h]

theorem report_reports (w : World) {events : List Log.Event}
    (h : ∀ e ∈ events, (Entry.event e).report? = none) : (w.report events).reports = w.reports := by
  have hnone : (events.map Entry.event).filterMap Entry.report? = [] := by
    simpa [List.filterMap_eq_nil_iff] using h
  rw [reports, report, List.filterMap_append, hnone, List.append_nil]
  rfl

@[simp] theorem setFrames_reports (w : World) (t : Nat) (frames : List Frame) :
    (w.setFrames t frames).reports = w.reports := rfl

@[simp] theorem recordAnswer_reports (w : World) (action : String) (answer : Answer) :
    (w.recordAnswer action answer).reports = w.reports := by
  cases answer <;> first | rfl | exact w.record_reports rfl

theorem reportFailure_reports (w : World) (s : Running) (failure : Option Failure) :
    (w.reportFailure s failure).reports =
      w.reports ++ (failure.map (Failure.event s.phase (s.path w.registry))).toList := by
  cases failure with
  | none => simp [reportFailure]
  | some failure =>
    have hevent : ∀ phase path, (Entry.event (failure.event phase path)).report? =
        some (failure.event phase path) := by
      cases failure <;> simp [Failure.event, Entry.report?]
    simp [reportFailure, reports, report, hevent]

@[simp] theorem bind_reports (w : World) (name : Option String) (id : Nat) :
    (w.bind name id).reports = w.reports := by
  cases name <;> rfl

theorem perform_reports (w : World) (scope : Scope) (effect : Effect Action) :
    (w.perform scope effect).1.reports = w.reports := by
  cases effect with
  | note text => exact w.record_reports rfl
  | showModule => exact w.record_reports rfl
  | create path handle =>
    simp only [perform, bind_reports]
    refine report_reports _ ?_
    unfold Registry.create
    split <;> simp [Entry.report?]
  | get path handle =>
    simp only [perform]
    split <;> simp
  | invalidate handle message =>
    simp only [perform, withHandle]
    split
    · exact report_reports _ (by simp [Entry.report?])
    · rfl
  | _ =>
    simp only [perform, withHandle, withData, alter]
    repeat' split
    all_goals rfl

theorem start_reports (w : World) (command : Command Action) :
    (w.start command).1.reports = w.reports := by
  cases command with
  | message text =>
    simp only [start]
    split <;> rfl
  | _ => rfl

theorem advanceEvent_reports (w : World) (p : Progress) (returned : Returned) :
    (w.advanceEvent p returned).1.reports = w.reports := by
  unfold advanceEvent
  split <;> first | rfl | exact report_reports _ (by simp [Entry.report?])

theorem leave_reports (w : World) (t : Nat) {below : List Frame} (returned : Returned)
    (h : caller? below = none ∨ ∀ failure, returned ≠ .finished failure) :
    (w.leave t below returned).reports = w.reports := by
  cases below with
  | nil => exact record_reports _ rfl
  | cons frame rest =>
    cases frame with
    | script scope actions => simp [leave]
    | request path job => rfl
    | sequence answer s =>
      cases returned with
      | finished failure => exact absurd h (by simp [caller?])
      | _ => rfl
    | message m => rfl
    | progress p => simp [leave, advanceEvent_reports]

theorem stepScript_reports (w : World) (t : Nat) (scope : Scope) (rest : List Action)
    (below : List Frame) : (w.stepFrame t (.script scope rest) below).1.reports =
      w.reports ++ (w.ending? (.script scope rest :: below)).toList.filterMap Ending.report? := by
  cases hover : outcome? rest with
  | some failure =>
    rw [Alike.stepFrame_ended hover]
    cases hcaller : caller? below with
    | some s =>
      obtain ⟨answer, more, rfl⟩ := caller?_eq_some hcaller
      refine (reportFailure_reports _ s failure).trans ?_
      cases failure <;> simp [ending?, hover, hcaller, Ending.report?]
    | none =>
      rw [w.leave_reports t _ (.inl hcaller)]
      simp [ending?, hover, hcaller]
  | none =>
    rw [ending?, hover, Option.bind_none, Option.toList_none, List.filterMap_nil, List.append_nil]
    cases rest with
    | nil => cases hover
    | cons action rest =>
      cases action with
      | effect effect => simp [stepFrame, act, perform_reports]
      | wait gate =>
        simp only [stepFrame, act]
        split <;> rfl
      | fail reason => cases hover
      | panic payload => cases hover
      | spawn command => simp [stepFrame, act, start_reports]
      | _ => rfl

theorem request_reports (w : World) (t : Nat) (path : String) (job : Job Value)
    (below : List Frame) : (w.request t path job below).reports = w.reports := by
  have hjob : ∀ failure, Returned.ofJob job ≠ .finished failure := by
    cases job <;> simp [Returned.ofJob]
  unfold request
  split
  · split
    · exact w.leave_reports t _ (.inr (by simp))
    · rw [leave_reports _ t _ (.inr (by simp))]
      exact w.report_reports (by simp [Entry.report?])
  · have hquiet : ∀ events registry, (∀ e ∈ events, (Entry.event e).report? = none) →
        ({ w with registry }.report events).reports = w.reports :=
      fun events registry h => report_reports _ h
    have hevents : ∀ id, ∀ e ∈ (Sequence.request w.registry id job).2.2,
        (Entry.event e).report? = none := fun id => by
      unfold Sequence.request
      split
      · simp
      · split <;> simp [Entry.report?]
    dsimp only
    split
    · exact hquiet _ _ (hevents _)
    · rw [leave_reports _ t _ (.inr hjob)]
      exact hquiet _ _ (hevents _)

theorem step_events_quiet (r : Contexts) (s : Running) :
    ∀ e ∈ (s.step r).2.2, (Entry.event e).report? = none := by
  unfold Sequence.step
  split <;> simp [Entry.report?]

theorem advanceSequence_reports (w : World) (t : Nat) (answer : Returned) (s : Running)
    {below : List Frame} (h : caller? below = none) :
    (w.advanceSequence t answer s below).reports = w.reports := by
  have hquiet : ({ w with registry := (s.step w.registry).2.1 }.report
      (s.step w.registry).2.2).reports = w.reports := report_reports _ (step_events_quiet _ s)
  unfold advanceSequence
  dsimp only
  split
  · exact hquiet
  · exact hquiet
  · exact (leave_reports _ t answer (.inl h)).trans hquiet

theorem load_reports (w : World) (t : Nat) (path : String) (left : List String)
    (below : List Frame) : (w.load t path left below).reports = w.reports := by
  unfold load
  dsimp only
  split
  · exact record_reports _ rfl
  · rw [leave_reports _ t _ (.inl rfl)]
    exact record_reports _ rfl

theorem advanceProgress_reports (w : World) (t : Nat) (p : Progress) (below : List Frame) :
    (w.advanceProgress t p below).reports = w.reports := by
  unfold advanceProgress
  split
  · exact w.leave_reports t _ (.inr (by simp))
  · exact w.leave_reports t _ (.inr (by simp))
  · rw [load_reports, record_reports _ rfl]
    exact w.report_reports (by simp [Entry.report?])
  · exact w.record_reports rfl
  · exact w.leave_reports t _ (.inr (by simp))
  · rfl
  · rfl

theorem message_events_quiet (m : Message) : ∀ e ∈ m.events, (Entry.event e).report? = none := by
  cases m with
  | error err =>
    have hmessage : ∀ text : String, text.toList.head? = some 'h' →
        "dev server error: " ++ err.message ≠ text := by
      rintro text htext rfl
      simp at htext
    have hfailed := hmessage "hot callback failed" rfl
    have hpanicked := hmessage "hot callback panicked" rfl
    simp [Message.events, Entry.report?, hfailed, hpanicked]
  | _ => simp [Message.events, Entry.report?]

/-- In one step the report is made that its ending asks for, and no other. -/
theorem stepFrame_reports (w : World) (t : Nat) (frame : Frame) (below : List Frame)
    (h : Stacked (frame :: below)) : (w.stepFrame t frame below).1.reports =
      w.reports ++ (w.ending? (frame :: below)).toList.filterMap Ending.report? := by
  cases frame with
  | script scope rest => exact w.stepScript_reports t scope rest below
  | request path job => simpa [stepFrame, ending?] using w.request_reports t path job below
  | sequence answer s =>
    have hbelow : caller? below = none := by
      cases below with
      | nil => rfl
      | cons next more =>
        have hnext := h.head rfl next (by simp)
        cases next <;> first | rfl | cases hnext
    simpa [stepFrame, ending?] using w.advanceSequence_reports t answer s hbelow
  | message m => simpa [stepFrame, ending?] using w.report_reports (message_events_quiet m)
  | progress p => simpa [stepFrame, ending?] using w.advanceProgress_reports t p below

theorem turn_reports (w : World) (turn : Turn) (h : w.WellStacked) :
    (w.turn turn).reports = w.reports ++ (w.endingsAt turn).filterMap Ending.report? := by
  cases turn with
  | operate operation =>
    simp only [endingsAt, List.filterMap_nil, List.append_nil]
    cases operation with
    | effect effect => exact w.perform_reports {} effect
    | start command => exact w.start_reports command
    | cancel t =>
      simp only [World.turn, operate, cancel]
      split <;> rfl
  | step t =>
    simp only [World.turn, step, endingsAt]
    cases ht : w.tasks[t]? with
    | none => simp [ending?]
    | some frames =>
      have hstacked := h frames (List.mem_of_getElem? ht)
      cases frames with
      | nil => simp [ending?]
      | cons frame below => exact w.stepFrame_reports t frame below hstacked

/-- What is reported of callbacks in a run is one report for each that did not end well. -/
theorem run_reports (w : World) (turns : List Turn) (h : w.WellStacked) :
    (w.after turns).reports = w.reports ++ (w.endings turns).filterMap Ending.report? := by
  induction turns generalizing w with
  | nil => simp [endings, after]
  | cons turn turns ih =>
    have hlater := ih (w.turn turn) (turn_changes w turn h).2
    rw [endings, List.filterMap_append, ← List.append_assoc, ← w.turn_reports turn h]
    exact hlater

/-! ### Endings and returns -/

theorem effectHappenings_returned (w : World) (scope : Scope) (effect : Effect Action) :
    (w.effectHappenings scope effect).filterMap Happening.returned? = [] := by
  cases effect with
  | create path handle =>
    rw [effectHappenings]
    split <;> rfl
  | _ => simp [effectHappenings, List.filterMap_map, Function.comp_def, Happening.returned?]

theorem stepHappenings_returned (w : World) (frames : List Frame) :
    (w.stepHappenings frames).filterMap Happening.returned? =
      (w.ending? frames).toList.map fun e => (e.context, e.phase) := by
  cases frames with
  | nil => rfl
  | cons frame below =>
    cases frame with
    | script scope rest =>
      cases hover : outcome? rest with
      | some failure =>
        rw [Alike.stepHappenings_ended hover, Alike.returning, ending?, hover]
        cases caller? below <;> simp [Happening.returned?]
      | none =>
        rw [ending?, hover]
        cases rest with
        | nil => cases hover
        | cons action rest =>
          cases action with
          | effect effect => exact w.effectHappenings_returned scope effect
          | fail reason => cases hover
          | panic payload => cases hover
          | _ => rfl
    | request path job => simp [stepHappenings, ending?, List.filterMap_map, Function.comp_def,
        Happening.returned?]
    | sequence answer s =>
      simp only [stepHappenings, Sequence.happening, ending?]
      split <;> rfl
    | message m => rfl
    | progress p => rfl

theorem endings_returned (w : World) (turns : List Turn) :
    (w.history turns).filterMap Happening.returned? =
      (w.endings turns).map fun e => (e.context, e.phase) := by
  induction turns generalizing w with
  | nil => rfl
  | cons turn turns ih =>
    have hnow : (w.happenings turn).filterMap Happening.returned? =
        (w.endingsAt turn).map fun e => (e.context, e.phase) := by
      cases turn with
      | step t => exact w.stepHappenings_returned _
      | operate operation =>
        cases operation with
        | effect effect => exact w.effectHappenings_returned {} effect
        | start command => rfl
        | cancel t =>
          simp [happenings, endingsAt, List.filterMap_map, Function.comp_def, Happening.returned?]
    rw [history, endings, List.filterMap_append, List.map_append, hnow, ih]

theorem ending?_eq_some {w : World} {frames : List Frame} {e : Ending}
    (h : w.ending? frames = some e) : ∃ s, ⟨true, s⟩ ∈ flightsIn false frames ∧
      e.context = s.context ∧ e.path = s.path w.registry := by
  unfold ending? at h
  split at h
  · obtain ⟨failure, -, hcalled⟩ := Option.bind_eq_some_iff.mp h
    obtain ⟨s, hcaller, rfl⟩ := Option.map_eq_some_iff.mp hcalled
    obtain ⟨answer, more, rfl⟩ := caller?_eq_some hcaller
    exact ⟨s, by simp [flightsIn], rfl, rfl⟩
  · cases h

theorem endingsAt_path {w : World} (hs : Sound w.scene) (turn : Turn) :
    ∀ e ∈ w.endingsAt turn, ∃ c, w.registry.context? e.context = some c ∧ c.path = e.path := by
  intro e he
  cases turn with
  | operate operation => cases he
  | step t =>
    obtain ⟨s, hflight, hcontext, hpath⟩ := ending?_eq_some (Option.mem_toList.mp he)
    obtain ⟨c, hc, -⟩ := placed_path hs (mem_flights hflight)
    exact ⟨c, hcontext ▸ hc, by rw [hpath, path_of_context hc]⟩

theorem endings_path {w : World} (turns : List Turn) (hw : w.WellStacked) (hs : Sound w.scene) :
    ∀ e ∈ w.endings turns, ∃ c, (w.after turns).registry.context? e.context = some c ∧
      c.path = e.path := by
  induction turns generalizing w with
  | nil => simp [endings]
  | cons turn turns ih =>
    intro e he
    obtain ⟨hc, hstacked⟩ := turn_changes w turn hw
    rcases List.mem_append.mp he with hnow | hlater
    · have hctx := endingsAt_path hs turn e hnow
      exact (hc.trans (history_changes _ turns hstacked)).context_kept hs hctx
    · exact ih hstacked (hc.sound hs) e hlater

end World

/-! ### Calls and returns -/

def Happening.called? (id : Nat) : Happening → Option Phase
  | .called j phase _ _ => if j = id then some phase else none
  | _ => none

/-- The phase of the callback that was called last on a context. -/
def lastCall (id : Nat) (hs : List Happening) : Option Phase :=
  (hs.filterMap (Happening.called? id)).getLast?

/-- What is running was called last. -/
def Calling (hs : List Happening) (σ : Scene) : Prop :=
  ∀ f ∈ σ.flights, f.calling = true → lastCall f.context hs = some f.sequence.phase

section

variable {σ τ : Scene} {h : Happening} {hs : List Happening}

theorem lastCall_snoc (id : Nat) (hs : List Happening) (h : Happening) :
    lastCall id (hs ++ [h]) = (h.called? id).or (lastCall id hs) := by
  rw [lastCall, filterMap_snoc, List.getLast?_append]
  cases h.called? id <;> rfl

theorem Change.calling (hc : Change σ h τ) (hs' : Sound σ) {f : Flight} (hf : f ∈ τ.flights)
    (hcalling : f.calling = true) : f ∈ σ.flights ∧ h.called? f.context = none ∨
      h.called? f.context = some f.sequence.phase := by
  -- a flight that was put in the place of another is not calling, or else it is the one called
  have kept : ∀ {A B : List Flight} {g : Flight}, f ∈ A ++ g :: B → f ∈ A ++ B ∨ f = g := by
    intro A B g hmem
    simp only [List.mem_append, List.mem_cons] at hmem ⊢
    tauto
  have more : ∀ {A B : List Flight} {g : Flight}, f ∈ A ++ B → f ∈ A ++ g :: B := by
    intro A B g hmem
    simp only [List.mem_append, List.mem_cons] at hmem ⊢
    tauto
  cases hc with
  | granted job hfind hctx free =>
    rcases kept hf with hold | rfl
    · exact .inl ⟨hold, rfl⟩
    · cases hcalling
  | begun id job =>
    rcases kept hf with hold | rfl
    · exact .inl ⟨more hold, rfl⟩
    · cases hcalling
  | calledDispose id job callback left =>
    rcases kept hf with hold | rfl
    · have hother : f.context ∈ holdings _ := List.mem_map_of_mem hold
      refine .inl ⟨more hold, if_neg ?_⟩
      rintro rfl
      exact hs'.held_once.1 hother
    · exact .inr (if_pos rfl)
  | turned id module =>
    rcases kept hf with hold | rfl
    · exact .inl ⟨more hold, rfl⟩
    · cases hcalling
  | calledAccept id module generation taken callback left =>
    rcases kept hf with hold | rfl
    · have hother : f.context ∈ holdings _ := List.mem_map_of_mem hold
      refine .inl ⟨more hold, if_neg ?_⟩
      rintro rfl
      exact hs'.held_once.1 hother
    · exact .inr (if_pos rfl)
  | returned s =>
    rcases kept hf with hold | rfl
    · exact .inl ⟨more hold, rfl⟩
    · cases hcalling
  | pruned s hstage => exact .inl ⟨more hf, rfl⟩
  | resumed s hstage hq =>
    rcases kept hf with hold | rfl
    · exact .inl ⟨more hold, rfl⟩
    · cases hcalling
  | finished s hstage hq => exact .inl ⟨more hf, rfl⟩
  | dropped g => exact .inl ⟨more hf, rfl⟩
  | _ => exact .inl ⟨hf, rfl⟩

theorem Changes.calling (hc : Changes σ hs τ) (hs' : Sound σ) (hv : Calling [] σ) :
    Calling hs τ := by
  induction hc with
  | refl => exact hv
  | next hfirst hlast ih =>
    intro f hf hcalling
    rw [lastCall_snoc]
    rcases hlast.calling (hfirst.sound hs') hf hcalling with ⟨hbefore, hother⟩ | hnow
    · rw [hother, Option.none_or]
      exact ih f hbefore hcalling
    · rw [hnow, Option.some_or]

end

namespace World

theorem returned_called (modules : List (String × List Action)) (turns : List Turn)
    {id : Nat} {phase : Phase} {earlier later : List Happening}
    (h : (initial modules).history turns = earlier ++ .returned id phase :: later) :
    lastCall id earlier = some phase := by
  obtain ⟨τ, τ', hbefore, hreturn, -⟩ := (run_changes modules turns).middle h
  have hcalling := hbefore.calling .empty (by simp [Calling])
  cases hreturn with
  | returned s => exact hcalling ⟨true, s⟩ (by simp) rfl

/-! ### Two runs -/

theorem Alike.outcome? {free : Bool} {as bs : List Action} (h : Script.Alike free as bs) :
    (Hot.outcome? bs).isSome = (Hot.outcome? as).isSome := by
  cases h with
  | nil => rfl
  | ended ends ends' => rw [ends, ends', Option.isSome_some, Option.isSome_some]
  | @cons _ a _ _ _ action rest =>
    cases action with
    | same => cases a <;> rfl
    | effect he => rfl
    | spawn hc => rfl
  | choice value taken skipped => rfl

theorem Alike.caller? {v w : World} {fs gs : List Frame} (h : v.Alike w)
    (hframes : Frames.Alike fs gs) :
    (Hot.caller? gs).map (fun s => (s.context, s.phase, s.path w.registry)) =
      (Hot.caller? fs).map fun s => (s.context, s.phase, s.path v.registry) := by
  cases hframes with
  | nil => rfl
  | cons hframe hbelow =>
    cases hframe with
    | sequence answer hs =>
      simp [Hot.caller?, hs.context_eq, hs.phase_eq, hs.path_eq h.registry]
    | _ => rfl

theorem Alike.ending? {v w : World} {fs gs : List Frame} (h : v.Alike w)
    (hframes : Frames.Alike fs gs) :
    (w.ending? gs).map Ending.callback = (v.ending? fs).map Ending.callback := by
  cases hframes with
  | nil => rfl
  | @cons f g fs gs hframe hbelow =>
    cases hframe with
    | @script scope as bs hscript =>
      have hends := Alike.outcome? hscript
      have hcaller := h.caller? hbelow
      cases has : Hot.outcome? as with
      | none =>
        have hbs : Hot.outcome? bs = none := by simpa [has] using hends
        simp only [World.ending?, has, hbs, Option.bind_none, Option.map_none]
      | some first =>
        obtain ⟨second, hbs⟩ : ∃ second, Hot.outcome? bs = some second := by
          rw [← Option.isSome_iff_exists, hends, has, Option.isSome_some]
        simp only [World.ending?, has, hbs, Option.bind_some, Option.map_map]
        exact hcaller
    | _ => rfl

theorem Alike.endings {v w : World} {turns turns' : List Turn} (h : v.Alike w)
    (hturns : List.Forall₂ Turn.Alike turns turns') :
    (w.endings turns').map Ending.callback = (v.endings turns).map Ending.callback := by
  induction hturns generalizing v w with
  | nil => rfl
  | cons hturn _ ih =>
    rw [World.endings, World.endings, List.map_append, List.map_append, ih (h.turn hturn)]
    congr 1
    cases hturn with
    | operate hop => rfl
    | step t =>
      have hending := h.ending? (h.frames t)
      simp only [World.endingsAt, ← Option.toList_map]
      rw [hending]

theorem given_eq {s s' : Running} (h : s.Alike s') : s'.given = s.given := by
  cases h with
  | intro context stage => cases stage <;> rfl

theorem Alike.stacked {fs gs : List Frame} (hframes : Frames.Alike fs gs) (h : Stacked fs) :
    Stacked gs := by
  induction hframes with
  | nil => exact h
  | @cons f g fs gs hframe hbelow ih =>
    obtain ⟨hhead, htail⟩ := List.isChain_cons.mp h
    refine List.isChain_cons.mpr ⟨fun next hnext answer s hsequence => ?_, ih htail⟩
    cases hbelow with
    | nil => cases hnext
    | @cons f' g' _ _ hframe' _ =>
      obtain rfl : g' = next := by simpa using hnext
      subst hsequence
      cases hframe' with
      | @sequence _ s' _ hsame =>
        obtain ⟨rest, hscript⟩ := hhead (.sequence answer s') (by simp) answer s' rfl
        subst hscript
        cases hframe with
        | script _ _ => exact ⟨_, by rw [given_eq hsame]⟩

theorem Alike.wellStacked {v w : World} (h : v.Alike w) (hv : v.WellStacked) :
    w.WellStacked := by
  intro gs hgs
  obtain ⟨t, ht⟩ := List.mem_iff_getElem?.mp hgs
  rcases h.task t with ⟨-, hnone⟩ | ⟨fs, gs', hfs, hgs', hframes⟩
  · rw [hnone] at ht
    cases ht
  · obtain rfl := Option.some.inj (hgs'.symm.trans ht)
    exact stacked hframes (hv fs (List.mem_of_getElem? hfs))

/-- How callbacks end is nobody else's business. Whatever turns two runs take from alike worlds, if
callbacks do the same up to their ends in both, then the same callbacks are called in the same order
with the same arguments, every answer and outcome in the log is the same, and so is every context
that is left. The logs only differ in the reports on callbacks: in either run there is one for each
callback that did not end well, in the order in which they ended, with the phase in which the
callback was called and the path of its context. -/
theorem failures_isolated (modules : List (String × List Action)) (before turns turns' : List Turn)
    {w : World} (hw : ((initial modules).after before).Alike w)
    (hturns : List.Forall₂ Turn.Alike turns turns') :
    let v := (initial modules).after before
    Happenings.Alike (v.history turns) (w.history turns') ∧
    (v.after turns).Alike (w.after turns') ∧
    (v.after turns).reports = v.reports ++ (v.endings turns).filterMap Ending.report? ∧
    (w.after turns').reports = w.reports ++ (w.endings turns').filterMap Ending.report? ∧
    (w.endings turns').map Ending.callback = (v.endings turns).map Ending.callback ∧
    ((v.history turns).filterMap Happening.returned? =
      (v.endings turns).map fun e => (e.context, e.phase)) ∧
    (∀ e ∈ v.endings turns, ∃ c, (v.after turns).registry.context? e.context = some c ∧
      c.path = e.path) ∧
    ∀ id phase earlier later, v.history turns = earlier ++ .returned id phase :: later →
      lastCall id ((initial modules).history before ++ earlier) = some phase := by
  intro v
  have hstacked : v.WellStacked := after_wellStacked modules before
  obtain ⟨hhistory, hafter⟩ := hw.run hturns
  refine ⟨hhistory, hafter, v.run_reports turns hstacked,
    w.run_reports turns' (hw.wellStacked hstacked), hw.endings hturns, v.endings_returned turns,
    endings_path turns hstacked (run_sound modules before), fun id phase earlier later hsplit => ?_⟩
  refine returned_called modules (before ++ turns) (?_ : _ = _ ++ .returned id phase :: later)
  rw [history_append, hsplit, List.append_assoc]

/-- A module registers a callback of each kind, and the accepting one asks for a prune. The lists
say how they end. -/
def registered (disposing accepting : List Action) : List Turn :=
  [.operate (.effect (.create "/p" (some "p"))),
    .operate (.effect (.dispose "p" { atOnce := .effect (.note "bye") :: disposing })),
    .operate (.effect (.accept "p" { steps := .prune "/p" :: accepting }))]

def updatedOnce : List Turn := .operate (.start (.apply "/p" none)) :: List.replicate 16 (.step 0)

theorem registered_alike {as bs cs ds : List Action} {first second third fourth : Option Failure}
    (has : Hot.outcome? as = some first) (hbs : Hot.outcome? bs = some second)
    (hcs : Hot.outcome? cs = some third) (hds : Hot.outcome? ds = some fourth) :
    List.Forall₂ Turn.Alike (registered as cs) (registered bs ds) := by
  have hdispose : Callback.Alike { atOnce := .effect (.note "bye") :: as }
      { atOnce := .effect (.note "bye") :: bs } :=
    Callback.alike_of_ends [.effect (.note "bye")] (by simp [Callback.actions])
      (by simp [Callback.actions]) has hbs
  have haccept : Callback.Alike { steps := .prune "/p" :: cs } { steps := .prune "/p" :: ds } :=
    Callback.alike_of_ends [.prune "/p"] rfl rfl hcs hds
  exact .cons (.refl _) (.cons (.operate (.effect (.dispose "p" hdispose)))
    (.cons (.operate (.effect (.accept "p" haccept))) .nil))

theorem failures_isolated_updatedOnce :
    let v := (initial []).after (registered [] [])
    let w := (initial []).after (registered [.panic none] [.fail "late"])
    v.Alike w ∧ Happenings.Alike (v.history updatedOnce) (w.history updatedOnce) ∧
    (v.after updatedOnce).Alike (w.after updatedOnce) ∧
    ((w.after updatedOnce).registry.find? "/p" = none) ∧
    (v.after updatedOnce).reports = [] ∧
    (w.after updatedOnce).reports =
      [⟨.error, "hot callback panicked",
        [("phase", .text "dispose"), ("path", .text "/p"), ("error", .text "static panic")]⟩,
        ⟨.error, "hot callback failed",
        [("phase", .text "accept"), ("path", .text "/p"), ("error", .text "late")]⟩] := by
  intro v w
  have halike : v.Alike w := ((Alike.refl (initial [])).run (registered_alike rfl rfl rfl rfl)).2
  have hturns : List.Forall₂ Turn.Alike updatedOnce updatedOnce :=
    List.forall₂_same.mpr fun turn _ => .refl turn
  obtain ⟨hhistory, hafter, hv, hw, -⟩ :=
    failures_isolated [] (registered [] []) updatedOnce updatedOnce halike hturns
  have hnone : v.endings updatedOnce = [⟨0, .dispose, "/p", none⟩, ⟨0, .accept, "/p", none⟩] := by
    cbv
  have hboth : w.endings updatedOnce = [⟨0, .dispose, "/p", some (.panicked "static panic")⟩,
      ⟨0, .accept, "/p", some (.failed "late")⟩] := by cbv
  refine ⟨halike, hhistory, hafter, by cbv, ?_, ?_⟩
  · rw [hv, hnone]
    rfl
  · rw [hw, hboth]
    rfl

end World

end ModuleHost.Hot
