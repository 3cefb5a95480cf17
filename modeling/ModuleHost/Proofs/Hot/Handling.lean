import ModuleHost.Proofs.Hot.Loads
import ModuleHost.Proofs.Hot.Lockstep

/-! How the host deals with a message. What it does for a task is read off the entries that the
steps of the task record and off the answers its calls are given; whatever the modules do and
whatever else goes on, this is a beginning of one of the courses that the message allows. -/

namespace ModuleHost.Hot

open ModuleHost.Json

/-- What the host does about a message, and what it learns from what it calls. -/
inductive HostAct where
  | invalidated (path : String)
  | loading (path : String) (version : Nat)
  | loaded (path : String) (version : Nat)
  | failed (path : String) (version : Nat)
  | asked (path : String) (job : Job Value) (registered : Bool)
  | answered (returned : Returned)
  | decided (outcome : Outcome)

def Entry.hostAct? (t : Nat) : Entry → Option HostAct
  | .invalidated path => some (.invalidated path)
  | .loaded path version => some (.loading path version)
  | .done task (.decided outcome) => if task = t then some (.decided outcome) else none
  | _ => none

def Progress.reply (p : Progress) (returned : Returned) : HostAct :=
  match p, returned with
  | .loading path version _, .finished none => .loaded path version
  | .loading path version _, _ => .failed path version
  | _, returned => .answered returned

def Returned.ofUnknown : Job Value → Returned
  | .update _ => .applied false
  | .prune => .pruned

def Frame.ofHost : Frame → Bool
  | .message _ | .progress _ => true
  | _ => false

namespace World

def handsDown (w : World) : Frame → Option Returned
  | .script _ rest => (outcome? rest).map .finished
  | .request path job =>
    match w.registry.find? path with
    | none => some (.ofUnknown job)
    | some id =>
      match (Sequence.request w.registry id job).1 with
      | none => some (.ofJob job)
      | some _ => none
  | .sequence answer s =>
    match (s.step w.registry).1 with
    | .ended => some answer
    | _ => none
  | .message _ | .progress _ => none

def asks (w : World) : Frame → List HostAct
  | .request path job => [.asked path job (w.registry.find? path).isSome]
  | _ => []

/-- What the host calls for, and what it is told, when some frames step. The load of a module that
is unknown fails at once. -/
def replies (w : World) : List Frame → List HostAct
  | [.progress (.updating (path :: _))] =>
    match w.modules.find? (·.1 = path) with
    | some _ => []
    | none => [.failed path (latest w.versions path + 1)]
  | [frame, .progress p] => w.asks frame ++ ((w.handsDown frame).map p.reply).toList
  | _ => []

def hostActs (w : World) (t : Nat) : List HostAct :=
  ((w.step t).1.log.drop w.log.length).filterMap (Entry.hostAct? t) ++
    w.replies ((w.tasks[t]?).getD [])

/-- All that the host does in the steps of a task in a run. -/
def handling (w : World) (t : Nat) : List Turn → List HostAct
  | [] => []
  | .step u :: turns =>
    (if u = t then w.hostActs t else []) ++ (w.turn (.step u)).handling t turns
  | .operate operation :: turns => (w.turn (.operate operation)).handling t turns

/-- What is recorded on the way from one world to another tells of these acts. -/
def Tells (w : World) (t : Nat) (w' : World) (acts : List HostAct) : Prop :=
  ∃ new, w'.log = w.log ++ new ∧ new.filterMap (Entry.hostAct? t) = acts

section

variable {w w' w'' : World} {t : Nat} {as bs : List HostAct}

theorem Tells.same (h : w'.log = w.log) : w.Tells t w' [] := ⟨[], by simp [h], rfl⟩

theorem Tells.refl : w.Tells t w [] := .same rfl

theorem Tells.trans (h : w.Tells t w' as) (h' : w'.Tells t w'' bs) : w.Tells t w'' (as ++ bs) := by
  obtain ⟨first, hfirst, rfl⟩ := h
  obtain ⟨more, hmore, rfl⟩ := h'
  exact ⟨first ++ more, by rw [hmore, hfirst, List.append_assoc], List.filterMap_append⟩

theorem Tells.quietly (h : w.Tells t w' []) (h' : w'.Tells t w'' bs) : w.Tells t w'' bs :=
  h.trans h'

theorem Tells.record (h : w.Tells t w' as) (entry : Entry) :
    w.Tells t (w'.record entry) (as ++ (entry.hostAct? t).toList) := by
  refine h.trans ⟨[entry], rfl, ?_⟩
  cases hact : entry.hostAct? t <;> simp [hact]

theorem Tells.report (h : w.Tells t w' as) (events : List Log.Event) :
    w.Tells t (w'.report events) as := by
  have hmore : w'.Tells t (w'.report events) [] := ⟨events.map .event, rfl, by
    rw [List.filterMap_map]
    exact List.filterMap_eq_nil_iff.mpr fun _ _ => rfl⟩
  simpa using h.trans hmore

theorem Tells.setFrames (h : w.Tells t w' as) (u : Nat) (frames : List Frame) :
    w.Tells t (w'.setFrames u frames) as := h

theorem Tells.recordAnswer (h : w.Tells t w' as) (action : String) (answer : Answer) :
    w.Tells t (w'.recordAnswer action answer) as := by
  cases answer with
  | nothing => exact h
  | _ =>
    unfold World.recordAnswer
    exact (List.append_nil as) ▸ h.record (.did action _)

theorem Tells.reportFailure (h : w.Tells t w' as) (s : Running) (failure : Option Failure) :
    w.Tells t (w'.reportFailure s failure) as := by
  cases failure with
  | none => exact h
  | some failure => exact h.report _

theorem tells_bind (name : Option String) (id : Nat) : w.Tells t (w.bind name id) [] := by
  cases name <;> exact .same rfl

theorem tells_perform (scope : Scope) (effect : Effect Action) :
    w.Tells t (w.perform scope effect).1 [] := by
  cases effect with
  | note text => exact Tells.refl.record _
  | showModule => exact Tells.refl.record _
  | create path handle =>
    have hreport : w.Tells t ({ w with registry := (w.registry.create path).2.1 }.report
        (w.registry.create path).2.2) [] := (Tells.same rfl).report _
    exact hreport.quietly (tells_bind handle _)
  | get path handle =>
    simp only [perform]
    split
    · exact tells_bind handle _
    · exact .refl
  | invalidate handle message =>
    simp only [perform, withHandle]
    split
    · exact Tells.refl.report _
    · exact .refl
  | _ =>
    simp only [perform, withHandle, withData, alter]
    repeat' split
    all_goals exact .same rfl

theorem tells_start (command : Command Action) : w.Tells t (w.start command).1 [] := by
  cases command with
  | message text =>
    simp only [start]
    split <;> exact .same rfl
  | _ => exact .same rfl

theorem tells_advanceEvent (p : Progress) (returned : Returned) :
    w.Tells t (w.advanceEvent p returned).1 [] := by
  unfold advanceEvent
  split
  all_goals first | exact .refl | exact Tells.refl.report _

theorem tells_leave (u : Nat) {below : List Frame} (returned : Returned) (hb : below ≠ []) :
    w.Tells t (w.leave u below returned) [] := by
  cases below with
  | nil => exact absurd rfl hb
  | cons frame rest =>
    cases frame with
    | script scope actions => exact (Tells.refl.setFrames u _).recordAnswer _ _
    | request path job => exact .same rfl
    | sequence answer s =>
      cases returned with
      | finished failure => exact (Tells.refl.setFrames u _).reportFailure s failure
      | _ => exact .same rfl
    | message m => exact .same rfl
    | progress p => exact (tells_advanceEvent p returned).setFrames u _

theorem hostActs_eq {frames : List Frame} (h : w.Tells t (w.step t).1 as)
    (ht : w.tasks[t]? = some frames) : w.hostActs t = as ++ w.replies frames := by
  obtain ⟨new, hnew, rfl⟩ := h
  rw [hostActs, hnew, List.drop_left, ht, Option.getD_some]

end

end World

/-- What a frame that is not the host's own becomes when it does not go. -/
inductive Frame.Follows : Frame → Frame → Prop where
  | script {scope scope' : Scope} {as bs : List Action} :
      Follows (.script scope as) (.script scope' bs)
  | sequence {answer : Returned} {s s' : Running} :
      Follows (.sequence answer s) (.sequence answer s')
  | granted {path : String} {job : Job Value} {s : Running} :
      Follows (.request path job) (.sequence (.ofJob job) s)

/-- What comes of the step of a frame that is not the host's own. -/
inductive Inner (w : World) (t : Nat) (frame : Frame) (below : List Frame) (w' : World) : Prop where
  | stays (added : List (List Frame)) (above : List Frame) (next : Frame)
      (tasks : w'.tasks = (w.tasks ++ added).set t (above ++ next :: below))
      (guests : ∀ f ∈ above, f.ofHost = false) (follows : frame.Follows next)
      (hands : w.handsDown frame = none) (tells : w.Tells t w' [])
  | goes (w₁ : World) (returned : Returned) (left : w' = w₁.leave t below returned)
      (hands : w.handsDown frame = some returned) (tasks : w₁.tasks = w.tasks)
      (tells : w.Tells t w₁ [])

namespace World

variable {w : World} {t : Nat} {frame : Frame} {above below : List Frame} {p : Progress}

theorem script_inner {scope : Scope} {actions : List Action}
    (ht : w.tasks[t]? = some (.script scope actions :: below)) :
    Inner w t (.script scope actions) below (w.stepFrame t (.script scope actions) below).1 := by
  cases hover : outcome? actions with
  | some failure =>
    refine .goes w (.finished failure) ?_ (by simp [handsDown, hover]) rfl .refl
    exact congrArg Prod.fst (Alike.stepFrame_ended hover w t below)
  | none =>
    have hands : w.handsDown (.script scope actions) = none := by simp [handsDown, hover]
    cases actions with
    | nil => cases hover
    | cons action rest =>
      cases action with
      | fail reason => cases hover
      | panic payload => cases hover
      | effect effect =>
        refine .stays [] [] (.script scope rest) ?_ (by simp) .script hands ?_
        · simp [stepFrame, act, perform_tasks]
        · exact ((tells_perform scope effect).setFrames t _).recordAnswer _ _
      | spawn command =>
        obtain ⟨-, added, hadded, -⟩ := w.start_spec command
        refine .stays added [] (.script scope rest) ?_ (by simp) .script hands ?_
        · simp [stepFrame, act, hadded]
        · exact ((tells_start command).setFrames t _).recordAnswer _ _
      | wait gate =>
        by_cases hopen : gate ∈ w.openGates
        · refine .stays [] [] (.script scope rest) ?_ (by simp) .script hands ?_
          · simp [stepFrame, act, hopen]
          · simpa [stepFrame, act, hopen] using Tells.refl.setFrames t _
        · -- nothing happens before a gate that is closed
          obtain ⟨hlt, hget⟩ := List.getElem?_eq_some_iff.mp ht
          refine .stays [] [] (.script scope (.wait gate :: rest)) ?_ (by simp) .script hands ?_
          · simp [stepFrame, act, hopen, ← hget]
          · simpa [stepFrame, act, hopen] using Tells.refl
      | yield =>
        exact .stays [] [] (.script scope rest) (by simp [stepFrame, act]) (by simp) .script hands
          (.same rfl)
      | ifModule value steps =>
        exact .stays [] [] (.script scope _) (by simp [stepFrame, act]; rfl) (by simp) .script hands
          (.same rfl)
      | apply path module =>
        exact .stays [] [.request path (.update module)] (.script scope rest)
          (by simp [stepFrame, act]) (by simp [Frame.ofHost]) .script hands (.same rfl)
      | prune path =>
        exact .stays [] [.request path .prune] (.script scope rest) (by simp [stepFrame, act])
          (by simp [Frame.ofHost]) .script hands (.same rfl)

theorem request_inner (w : World) (t : Nat) (path : String) (job : Job Value)
    (below : List Frame) :
    Inner w t (.request path job) below (w.stepFrame t (.request path job) below).1 := by
  simp only [stepFrame, request]
  cases hfind : w.registry.find? path with
  | none =>
    cases job with
    | update module =>
      exact .goes _ (.applied false) rfl (by simp [handsDown, hfind, Returned.ofUnknown]) rfl
        (Tells.refl.report _)
    | prune =>
      exact .goes _ .pruned rfl (by simp [handsDown, hfind, Returned.ofUnknown]) rfl .refl
  | some id =>
    have htells : w.Tells t ({ w with registry := (Sequence.request w.registry id job).2.1 }.report
        (Sequence.request w.registry id job).2.2) [] := (Tells.same rfl).report _
    cases hs : (Sequence.request w.registry id job).1 with
    | none =>
      simp only [hs]
      exact .goes _ _ rfl (by simp [handsDown, hfind, hs]) rfl htells
    | some s =>
      simp only [hs]
      exact .stays [] [] (.sequence (.ofJob job) s) (by simp) (by simp) .granted
        (by simp [handsDown, hfind, hs]) (htells.setFrames t _)

theorem sequence_inner (w : World) (t : Nat) (answer : Returned) (s : Running)
    (below : List Frame) :
    Inner w t (.sequence answer s) below (w.stepFrame t (.sequence answer s) below).1 := by
  simp only [stepFrame, advanceSequence]
  have htells : w.Tells t ({ w with registry := (s.step w.registry).2.1 }.report
      (s.step w.registry).2.2) [] := (Tells.same rfl).report _
  cases hnext : (s.step w.registry).1 with
  | again next =>
    exact .stays [] [] (.sequence answer next) (by simp) (by simp) .sequence
      (by simp [handsDown, hnext]) (htells.setFrames t _)
  | call phase callback module next =>
    exact .stays [] [.script _ callback.actions] (.sequence answer next) (by simp; rfl)
      (by simp [Frame.ofHost]) .sequence (by simp [handsDown, hnext]) (htells.setFrames t _)
  | ended =>
    exact .goes _ _ rfl (by simp [handsDown, hnext]) rfl htells

theorem stepFrame_inner (ht : w.tasks[t]? = some (frame :: below)) (hf : frame.ofHost = false) :
    Inner w t frame below (w.stepFrame t frame below).1 := by
  cases frame with
  | script scope actions => exact script_inner ht
  | request path job => exact request_inner w t path job below
  | sequence answer s => exact sequence_inner w t answer s below
  | message m => cases hf
  | progress p => cases hf

theorem step_eq (ht : w.tasks[t]? = some (frame :: below)) :
    (w.step t).1 = (w.stepFrame t frame below).1 := by
  simp [step, ht]

theorem leave_guest (u : World) (returned : Returned) {guest : Frame} (hg : guest.ofHost = false)
    (below : List Frame) : (u.leave t (guest :: below) returned).tasks =
      u.tasks.set t (guest :: below) := by
  cases guest with
  | message m => cases hg
  | progress p => cases hg
  | sequence answer s => cases returned <;> simp [leave]
  | _ => simp [leave]

theorem leave_progress (u : World) (returned : Returned) (below : List Frame) :
    (u.leave t (.progress p :: below) returned).tasks =
      u.tasks.set t ((u.advanceEvent p returned).2 ++ below) := by
  simp [leave, (u.advanceEvent_spec p returned).2.1]

theorem advanceEvent_frames (u v : World) (p : Progress) (returned : Returned) :
    (u.advanceEvent p returned).2 = (v.advanceEvent p returned).2 := by
  unfold advanceEvent
  split <;> rfl

end World

/-- What becomes of the frame that the host has called, and what the host does meanwhile. -/
inductive Over (w : World) (frame : Frame) (p : Progress) : List Frame → List HostAct → Prop where
  | stays (guests : List Frame) (next : Frame) (hg : ∀ f ∈ guests, f.ofHost = false)
      (follows : frame.Follows next) (hands : w.handsDown frame = none) :
      Over w frame p (guests ++ [next, .progress p]) (w.asks frame)
  | goes (returned : Returned) (hands : w.handsDown frame = some returned) :
      Over w frame p (w.advanceEvent p returned).2 (w.asks frame ++ [p.reply returned])

namespace World

variable {w : World} {t : Nat} {frame : Frame} {above below : List Frame} {p : Progress}

theorem getElem?_set_added (added : List (List Frame)) {frames frames' : List Frame}
    (ht : w.tasks[t]? = some frames) : ((w.tasks ++ added).set t frames')[t]? = some frames' := by
  obtain ⟨hlt, -⟩ := List.getElem?_eq_some_iff.mp ht
  rw [List.getElem?_set_self]
  rw [List.length_append]
  omega

theorem getElem?_set {frames frames' : List Frame} (ht : w.tasks[t]? = some frames) :
    (w.tasks.set t frames')[t]? = some frames' := by
  simpa using getElem?_set_added [] ht

theorem step_above {top : Frame}
    (ht : w.tasks[t]? = some (top :: above ++ [frame, .progress p]))
    (hg : ∀ f ∈ top :: above, f.ofHost = false) (hf : frame.ofHost = false) :
    ∃ guests, (∀ f ∈ guests, f.ofHost = false) ∧
      (w.step t).1.tasks[t]? = some (guests ++ [frame, .progress p]) ∧ w.hostActs t = [] := by
  obtain ⟨htop, habove⟩ := List.forall_mem_cons.mp hg
  have hne : above ++ [frame, .progress p] ≠ [] := by simp
  have hreplies : w.replies (top :: (above ++ [frame, .progress p])) = [] := by
    cases above <;> simp [replies]
  rw [List.cons_append] at ht
  have hstep := step_eq ht
  cases stepFrame_inner ht htop with
  | stays added guests next tasks hguests follows hands tells =>
    have hnext : next.ofHost = false := by cases follows <;> rfl
    refine ⟨guests ++ next :: above, fun f hmem => ?_, ?_, ?_⟩
    · simp only [List.mem_append, List.mem_cons] at hmem
      rcases hmem with hmem | rfl | hmem
      · exact hguests f hmem
      · exact hnext
      · exact habove f hmem
    · rw [hstep, tasks, getElem?_set_added added ht]
      simp
    · rw [hostActs_eq (hstep ▸ tells) ht, hreplies, List.append_nil]
  | goes w₁ returned left hands tasks tells =>
    have htells : w.Tells t (w.step t).1 [] := by
      rw [hstep, left]
      exact tells.quietly (tells_leave t returned hne)
    -- whatever is handed down, it is not to the host
    obtain ⟨guest, rest, hrest, hguest⟩ : ∃ guest rest,
        above ++ [frame, .progress p] = guest :: rest ∧ guest.ofHost = false := by
      cases above with
      | nil => exact ⟨frame, _, rfl, hf⟩
      | cons guest rest => exact ⟨guest, _, rfl, habove guest List.mem_cons_self⟩
    refine ⟨above, habove, ?_, ?_⟩
    · rw [hstep, left, hrest, leave_guest w₁ returned hguest, tasks]
      exact getElem?_set ht
    · rw [hostActs_eq htells ht, hreplies, List.append_nil]

theorem step_called (ht : w.tasks[t]? = some [frame, .progress p]) (hf : frame.ofHost = false) :
    ∃ frames, (w.step t).1.tasks[t]? = some frames ∧ Over w frame p frames (w.hostActs t) := by
  have hstep := step_eq ht
  have hreplies : w.replies [frame, .progress p] =
      w.asks frame ++ ((w.handsDown frame).map p.reply).toList := by
    cases frame <;> first | rfl | cases hf
  cases stepFrame_inner ht hf with
  | stays added guests next tasks hguests follows hands tells =>
    refine ⟨guests ++ [next, .progress p], ?_, ?_⟩
    · rw [hstep, tasks, getElem?_set_added added ht]
    · rw [hostActs_eq (hstep ▸ tells) ht, hreplies, hands]
      simpa using Over.stays guests next hguests follows hands
  | goes w₁ returned left hands tasks tells =>
    have htells : w.Tells t (w.step t).1 [] := by
      rw [hstep, left]
      exact tells.quietly (tells_leave t returned (by simp))
    refine ⟨(w.advanceEvent p returned).2, ?_, ?_⟩
    · rw [hstep, left, leave_progress, tasks, List.append_nil, advanceEvent_frames w₁ w]
      exact getElem?_set ht
    · rw [hostActs_eq htells ht, hreplies, hands]
      exact .goes returned hands

end World

/-- What comes of a request that the host makes: a sequence that holds the context, or an answer. -/
theorem Over.request {w : World} {p : Progress} {frames : List Frame} {acts : List HostAct}
    {path : String} {job : Job Value} (h : Over w (.request path job) p frames acts) :
    (∃ guests s, (∀ f ∈ guests, f.ofHost = false) ∧
      frames = guests ++ [Frame.sequence (.ofJob job) s, .progress p] ∧
      acts = [.asked path job true]) ∨
    (frames = (w.advanceEvent p (.ofJob job)).2 ∧
      acts = [.asked path job true, p.reply (.ofJob job)]) ∨
    (frames = (w.advanceEvent p (.ofUnknown job)).2 ∧
      acts = [.asked path job false, p.reply (.ofUnknown job)]) := by
  cases h with
  | stays guests next hg follows hands =>
    cases follows with
    | @granted path job s =>
      refine .inl ⟨guests, s, hg, rfl, ?_⟩
      cases hfind : w.registry.find? path with
      | none => simp [World.handsDown, hfind] at hands
      | some id => simp [World.asks, hfind]
  | goes returned hands =>
    cases hfind : w.registry.find? path with
    | none =>
      obtain rfl : .ofUnknown job = returned := by simpa [World.handsDown, hfind] using hands
      exact .inr (.inr ⟨rfl, by simp [World.asks, hfind]⟩)
    | some id =>
      have hqueued : some (.ofJob job) = some returned := by
        rw [← hands]
        simp only [World.handsDown, hfind] at hands ⊢
        split at hands
        · rfl
        · cases hands
      obtain rfl := Option.some.inj hqueued
      exact .inr (.inl ⟨rfl, by simp [World.asks, hfind]⟩)

end ModuleHost.Hot
