import ModuleHost.Proofs.Hot.Locality

/-! Which callbacks a sequence runs. The account of a context is read off the history alone: what
has been registered on it since the lists were last taken, and what each of its sequences has
done. -/

namespace ModuleHost.Hot

open ModuleHost.Json

inductive Act where
  | call (phase : Phase) (callback : Callback Action) (module : Option Value)
  | back (phase : Phase)
  | turn

/-- One sequence of a context. -/
structure Course where
  job : Job Value
  disposes : List (Callback Action)
  accepts : Option (List (Callback Action)) := none
  acts : List Act := []
  ended : Bool := false

structure Account where
  disposes : List (Callback Action) := []
  accepts : List (Callback Action) := []
  registered : List (Callback Action) := []
  disposed : List (Callback Action) := []
  courses : List Course := []

/-- Callbacks called one after the other, each when the one before has completed or failed. -/
def rounds (phase : Phase) (module : Option Value) (callbacks : List (Callback Action)) :
    List Act :=
  callbacks.flatMap fun callback => [.call phase callback module, .back phase]

def Course.plan (c : Course) : List Act :=
  rounds .dispose none c.disposes ++
    match c.job with
    | .update module => .turn :: rounds .accept module (c.accepts.getD [])
    | .prune => []

def Account.act (a : Account) (act : Act) : Account :=
  { a with courses := a.courses.modifyHead fun c => { c with acts := c.acts ++ [act] } }

def Account.note (a : Account) : Happening → Account
  | .made .. => {}
  | .reused _ => { a with accepts := [] }
  | .accepts _ callback => { a with accepts := a.accepts ++ [callback] }
  | .disposes _ callback =>
    { a with disposes := a.disposes ++ [callback], registered := a.registered ++ [callback] }
  | .begun _ job =>
    { a with disposes := [], courses := ⟨job, a.disposes, none, [], false⟩ :: a.courses }
  | .called _ .dispose callback module =>
    { a with disposed := a.disposed ++ [callback] }.act (.call .dispose callback module)
  | .called _ .accept callback module => a.act (.call .accept callback module)
  | .returned _ phase => a.act (.back phase)
  | .turned _ =>
    { a.act .turn with
      courses := (a.act .turn).courses.modifyHead fun c => { c with accepts := some a.accepts } }
  | .ended .. => { a with courses := a.courses.modifyHead fun c => { c with ended := true } }
  | .marked _ | .wrote _ | .asked .. | .dropped _ => a

/-- The account of a context after what has happened. -/
def account (id : Nat) (hs : List Happening) : Account :=
  hs.foldl (fun a h => if h.context = id then a.note h else a) {}

theorem account_snoc_self (hs : List Happening) (h : Happening) :
    account h.context (hs ++ [h]) = (account h.context hs).note h := by
  simp [account]

theorem account_snoc_ne {id : Nat} (hs : List Happening) {h : Happening} (hne : h.context ≠ id) :
    account id (hs ++ [h]) = account id hs := by
  simp [account, hne]

/-! ### Accounts and contexts -/

/-- What a sequence has still to do for the callbacks that it has taken. -/
def Flight.pending (f : Flight) : List Act :=
  (if f.calling then [Act.back f.sequence.phase] else []) ++
    match f.sequence.stage with
    | .starting _ => []
    | .disposing _ left => rounds .dispose none left
    | .accepting module _ _ left => rounds .accept module left

def Course.Done (c : Course) : Prop := c.ended = true ∧ c.acts = c.plan

/-- How the account of a context agrees with the context. -/
inductive Followed (id : Nat) (a : Account) (σ : Scene) : Prop where
  | unknown (context : σ.registry.context? id = none) (flight : flightsOf σ.flights id = [])
      (courses : a.courses = []) (disposed : a.disposed = [])
  | resting {c : Context (Callback Action) Value} (context : σ.registry.context? id = some c)
      (flight : flightsOf σ.flights id = [] ∨
        ∃ job, flightsOf σ.flights id = [⟨false, ⟨id, .starting job⟩⟩])
      (disposes : c.disposes = a.disposes) (registered : a.registered = a.disposed ++ a.disposes)
      (accepts : c.accepts = a.accepts) (courses : ∀ course ∈ a.courses, course.Done)
  | disposing {c : Context (Callback Action) Value} (course : Course) (older : List Course)
      (calling : Bool) (job : Job Value) (left : List (Callback Action))
      (context : σ.registry.context? id = some c)
      (flight : flightsOf σ.flights id = [⟨calling, ⟨id, .disposing job left⟩⟩])
      (disposes : c.disposes = a.disposes)
      (registered : a.registered = a.disposed ++ left ++ a.disposes)
      (accepts : c.accepts = a.accepts) (courses : a.courses = course :: older)
      (done : ∀ course ∈ older, course.Done) (current : course.job = job)
      (running : course.ended = false) (acts : course.acts ++
        Flight.pending ⟨calling, ⟨id, .disposing job left⟩⟩ = rounds .dispose none course.disposes)
  | accepting {c : Context (Callback Action) Value} (course : Course) (older : List Course)
      (calling : Bool) (module : Option Value) (generation : Nat)
      (taken left : List (Callback Action)) (context : σ.registry.context? id = some c)
      (flight : flightsOf σ.flights id =
        [⟨calling, ⟨id, .accepting module generation taken left⟩⟩])
      (disposes : c.disposes = a.disposes) (registered : a.registered = a.disposed ++ a.disposes)
      (reached : generation ≤ c.generation)
      (accepts : a.accepts = if c.generation = generation then taken ++ c.accepts else c.accepts)
      (courses : a.courses = course :: older) (done : ∀ course ∈ older, course.Done)
      (running : course.ended = false) (acts : course.acts ++
        Flight.pending ⟨calling, ⟨id, .accepting module generation taken left⟩⟩ = course.plan)

namespace Followed

variable {id : Nat} {a : Account} {σ τ : Scene} {r : Contexts} {L A B : List Flight}

theorem quiet (hv : Followed id a σ)
    {g : Context (Callback Action) Value → Context (Callback Action) Value}
    (hctx : τ.registry.context? id = (σ.registry.context? id).map g)
    (ha : ∀ c, (g c).accepts = c.accepts) (hd : ∀ c, (g c).disposes = c.disposes)
    (hg : ∀ c, (g c).generation = c.generation)
    (hf : flightsOf τ.flights id = flightsOf σ.flights id) : Followed id a τ := by
  have context : ∀ {c}, σ.registry.context? id = some c → τ.registry.context? id = some (g c) := by
    intro c hc
    rw [hctx, hc, Option.map_some]
  cases hv with
  | unknown hc flight courses disposed =>
    exact .unknown (by rw [hctx, hc, Option.map_none]) (hf.trans flight) courses disposed
  | @resting c hc flight disposes registered accepts courses =>
    exact .resting (context hc) (hf ▸ flight) ((hd c).trans disposes) registered
      ((ha c).trans accepts) courses
  | @disposing c course older calling job left hc flight disposes registered accepts courses done
      current running acts =>
    exact .disposing course older calling job left (context hc) (hf.trans flight)
      ((hd c).trans disposes) registered ((ha c).trans accepts) courses done current running acts
  | @accepting c course older calling module generation taken left hc flight disposes registered
      reached accepts courses done running acts =>
    refine .accepting course older calling module generation taken left (context hc)
      (hf.trans flight) ((hd c).trans disposes) registered ?_ ?_ courses done running acts
    · rw [hg]
      exact reached
    · rw [hg, ha]
      exact accepts

theorem modified (hv : Followed id a ⟨r, L⟩)
    {g : Context (Callback Action) Value → Context (Callback Action) Value}
    (ha : ∀ c, (g c).accepts = c.accepts) (hd : ∀ c, (g c).disposes = c.disposes)
    (hg : ∀ c, (g c).generation = c.generation) : Followed id a ⟨r.modify id g, L⟩ :=
  hv.quiet (g := g) (by simp) ha hd hg rfl

theorem handedOut (hv : Followed id a ⟨r, L⟩) :
    Followed id (a.note (.reused id)) ⟨r.modify id Context.handOut, L⟩ := by
  cases hv with
  | unknown hc flight courses disposed =>
    exact .unknown (by simp [show r.context? id = none from hc]) flight courses disposed
  | resting hc flight disposes registered accepts courses =>
    exact .resting (Registry.context?_modify_self hc _) flight disposes registered rfl courses
  | disposing course older calling job left hc flight disposes registered accepts courses done
      current running acts =>
    exact .disposing course older calling job left (Registry.context?_modify_self hc _) flight
      disposes registered rfl courses done current running acts
  | @accepting c course older calling module generation taken left hc flight disposes registered
      reached accepts courses done running acts =>
    refine .accepting course older calling module generation taken left
      (Registry.context?_modify_self hc _) flight disposes registered (Nat.le_succ_of_le reached) ?_
      courses done running acts
    have later : (Context.handOut c).generation ≠ generation :=
      Nat.ne_of_gt (Nat.lt_succ_of_le reached)
    rw [if_neg later]
    rfl

theorem acceptAdded (hv : Followed id a ⟨r, L⟩) (callback : Callback Action) :
    Followed id (a.note (.accepts id callback)) ⟨r.addAccept id callback, L⟩ := by
  cases hv with
  | unknown hc flight courses disposed =>
    exact .unknown (by simp [Registry.addAccept, show r.context? id = none from hc]) flight courses
      disposed
  | resting hc flight disposes registered accepts courses =>
    exact .resting (Registry.context?_modify_self hc _) flight disposes registered
      (congrArg (· ++ [callback]) accepts) courses
  | disposing course older calling job left hc flight disposes registered accepts courses done
      current running acts =>
    exact .disposing course older calling job left (Registry.context?_modify_self hc _) flight
      disposes registered (congrArg (· ++ [callback]) accepts) courses done current running acts
  | @accepting c course older calling module generation taken left hc flight disposes registered
      reached accepts courses done running acts =>
    refine .accepting course older calling module generation taken left
      (Registry.context?_modify_self hc _) flight disposes registered reached ?_ courses done
      running acts
    dsimp only [Account.note]
    rw [accepts]
    split
    · exact List.append_assoc ..
    · rfl

theorem disposeAdded (hv : Followed id a ⟨r, L⟩) (callback : Callback Action) :
    Followed id (a.note (.disposes id callback)) ⟨r.addDispose id callback, L⟩ := by
  cases hv with
  | unknown hc flight courses disposed =>
    exact .unknown (by simp [Registry.addDispose, show r.context? id = none from hc]) flight courses
      disposed
  | resting hc flight disposes registered accepts courses =>
    refine .resting (Registry.context?_modify_self hc _) flight
      (congrArg (· ++ [callback]) disposes) ?_ accepts courses
    simp [Account.note, registered]
  | disposing course older calling job left hc flight disposes registered accepts courses done
      current running acts =>
    refine .disposing course older calling job left (Registry.context?_modify_self hc _) flight
      (congrArg (· ++ [callback]) disposes) ?_ accepts courses done current running acts
    simp [Account.note, registered]
  | accepting course older calling module generation taken left hc flight disposes registered
      reached accepts courses done running acts =>
    refine .accepting course older calling module generation taken left
      (Registry.context?_modify_self hc _) flight (congrArg (· ++ [callback]) disposes) ?_ reached
      accepts courses done running acts
    simp [Account.note, registered]

theorem fresh (hv : Followed r.contexts.length a ⟨r, L⟩) :
    flightsOf L r.contexts.length = [] ∧ a.courses = [] := by
  have hnone : r.context? r.contexts.length = none := List.getElem?_eq_none (Nat.le_refl _)
  cases hv with
  | unknown hc flight courses => exact ⟨flight, courses⟩
  | resting hc => exact absurd (hnone.symm.trans hc) (by simp)
  | disposing course older calling job left hc => exact absurd (hnone.symm.trans hc) (by simp)
  | accepting course older calling module generation taken left hc =>
    exact absurd (hnone.symm.trans hc) (by simp)

theorem made {path : String} (hv : Followed r.contexts.length a ⟨r, L⟩)
    (hfind : r.find? path = none) :
    Followed r.contexts.length {} ⟨(r.create path).2.1, L⟩ := by
  refine .resting (c := { path }) ?_ (.inl hv.fresh.1) rfl rfl rfl (by simp)
  exact (Registry.context?_create hfind _).trans (if_pos rfl)

theorem granted {path : String} {c : Context (Callback Action) Value} {job : Job Value}
    (hv : Followed id a ⟨r, A ++ B⟩) (hs : Sound ⟨r, A ++ B⟩) (hfind : r.find? path = some id)
    (hc : r.context? id = some c) (free : c.busy = false) :
    Followed id a ⟨r.setBusy id true, A ++ ⟨false, ⟨id, .starting job⟩⟩ :: B⟩ := by
  have hf : flightsOf (A ++ B) id = [] := hs.flightsOf_of_free hc free
  have hnext : Sound ⟨r.setBusy id true, A ++ ⟨false, ⟨id, .starting job⟩⟩ :: B⟩ :=
    hs.grant rfl hfind hc free
  cases hv with
  | unknown hnone => exact absurd (hnone.symm.trans hc) (by simp)
  | resting hc flight disposes registered accepts courses =>
    exact .resting (Registry.context?_modify_self hc _)
      (.inr ⟨job, hnext.flightsOf_self ⟨false, ⟨id, .starting job⟩⟩ rfl⟩) disposes registered
      accepts courses
  | disposing course older calling job left hc flight => simp [hf] at flight
  | accepting course older calling module generation taken left hc flight => simp [hf] at flight

theorem begun {job : Job Value} (hv : Followed id a ⟨r, A ++ ⟨false, ⟨id, .starting job⟩⟩ :: B⟩)
    (hs : Sound ⟨r, A ++ ⟨false, ⟨id, .starting job⟩⟩ :: B⟩) :
    Followed id (a.note (.begun id job)) ⟨r.modify id fun c => { c with disposes := [] },
      A ++ ⟨false, ⟨id, .disposing job (((r.context? id).map Context.disposes).getD [])⟩⟩ ::
        B⟩ := by
  have hf := hs.flightsOf_self ⟨false, ⟨id, .starting job⟩⟩ rfl
  have hf' := hs.flightsOf_self
    ⟨false, ⟨id, .disposing job (((r.context? id).map Context.disposes).getD [])⟩⟩ rfl
  simp only [Flight.context] at hf hf'
  cases hv with
  | unknown hc flight => simp [hf] at flight
  | @resting c hc flight disposes registered accepts courses =>
    have htaken : ((r.context? id).map Context.disposes).getD [] = a.disposes := by
      rw [show r.context? id = some c from hc]
      exact disposes
    rw [htaken] at hf' ⊢
    refine .disposing ⟨job, a.disposes, none, [], false⟩ a.courses false job a.disposes
      (Registry.context?_modify_self hc _) hf' rfl ?_ accepts rfl courses rfl rfl rfl
    simp [Account.note, registered]
  | disposing course older calling job left hc flight => simp [hf] at flight
  | accepting course older calling module generation taken left hc flight => simp [hf] at flight

theorem calledDispose {job : Job Value} {callback : Callback Action} {left : List (Callback Action)}
    (hv : Followed id a ⟨r, A ++ ⟨false, ⟨id, .disposing job (callback :: left)⟩⟩ :: B⟩)
    (hs : Sound ⟨r, A ++ ⟨false, ⟨id, .disposing job (callback :: left)⟩⟩ :: B⟩) :
    Followed id (a.note (.called id .dispose callback none))
      ⟨r, A ++ ⟨true, ⟨id, .disposing job left⟩⟩ :: B⟩ := by
  have hf := hs.flightsOf_self ⟨false, ⟨id, .disposing job (callback :: left)⟩⟩ rfl
  have hf' := hs.flightsOf_self ⟨true, ⟨id, .disposing job left⟩⟩ rfl
  simp only [Flight.context] at hf hf'
  cases hv with
  | unknown hc flight => simp [hf] at flight
  | resting hc flight => simp [hf] at flight
  | disposing course older calling job' left' hc flight disposes registered accepts courses done
      current running acts =>
    obtain ⟨rfl, rfl, rfl⟩ : false = calling ∧ job = job' ∧ callback :: left = left' := by
      simpa [hf] using flight
    refine .disposing { course with acts := course.acts ++ [.call .dispose callback none] } older
      true job left hc hf' disposes ?_ accepts ?_ done current running ?_
    · simpa [Account.note, Account.act] using registered
    · simp [Account.note, Account.act, courses]
    · simpa [Flight.pending, rounds, Sequence.phase] using acts
  | accepting course older calling module generation taken left hc flight => simp [hf] at flight

theorem turned {module : Option Value}
    (hv : Followed id a ⟨r, A ++ ⟨false, ⟨id, .disposing (.update module) []⟩⟩ :: B⟩)
    (hs : Sound ⟨r, A ++ ⟨false, ⟨id, .disposing (.update module) []⟩⟩ :: B⟩) :
    Followed id (a.note (.turned id)) ⟨r.modify id fun c => { c with accepts := [] },
      A ++ ⟨false, ⟨id, .accepting module (((r.context? id).map Context.generation).getD 0)
        (((r.context? id).map Context.accepts).getD [])
        (((r.context? id).map Context.accepts).getD [])⟩⟩ :: B⟩ := by
  have hf := hs.flightsOf_self ⟨false, ⟨id, .disposing (.update module) []⟩⟩ rfl
  simp only [Flight.context] at hf
  cases hv with
  | unknown hc flight => simp [hf] at flight
  | resting hc flight => simp [hf] at flight
  | @disposing c course older calling job left hc flight disposes registered accepts courses done
      current running acts =>
    obtain ⟨rfl, rfl, rfl⟩ : false = calling ∧ .update module = job ∧ [] = left := by
      simpa [hf] using flight
    -- of all that may be known of the context, only an update that disposes agrees with the flight
    have htaken : ((r.context? id).map Context.accepts).getD [] = a.accepts := by
      rw [show r.context? id = some c from hc]
      exact accepts
    have hgeneration : ((r.context? id).map Context.generation).getD 0 = c.generation := by
      rw [show r.context? id = some c from hc]
      rfl
    rw [htaken, hgeneration]
    refine .accepting { course with acts := course.acts ++ [.turn], accepts := some a.accepts }
      older false module c.generation a.accepts a.accepts (Registry.context?_modify_self hc _)
      (hs.flightsOf_self ⟨false, ⟨id, .accepting module c.generation a.accepts a.accepts⟩⟩ rfl)
      disposes ?_ (Nat.le_refl _) ?_ ?_ done running ?_
    · simpa [Account.note, Account.act] using registered
    · simp [Account.note, Account.act]
    · simp [Account.note, Account.act, courses]
    · have hacts : course.acts = rounds .dispose none course.disposes := by
        simpa [Flight.pending, rounds] using acts
      simp [Flight.pending, Course.plan, current, hacts]
  | accepting course older calling module generation taken left hc flight => simp [hf] at flight

theorem calledAccept {module : Option Value} {generation : Nat} {taken : List (Callback Action)}
    {callback : Callback Action} {left : List (Callback Action)}
    (hv : Followed id a
      ⟨r, A ++ ⟨false, ⟨id, .accepting module generation taken (callback :: left)⟩⟩ :: B⟩)
    (hs : Sound
      ⟨r, A ++ ⟨false, ⟨id, .accepting module generation taken (callback :: left)⟩⟩ :: B⟩) :
    Followed id (a.note (.called id .accept callback module))
      ⟨r, A ++ ⟨true, ⟨id, .accepting module generation taken left⟩⟩ :: B⟩ := by
  have hf :=
    hs.flightsOf_self ⟨false, ⟨id, .accepting module generation taken (callback :: left)⟩⟩ rfl
  simp only [Flight.context] at hf
  cases hv with
  | unknown hc flight => simp [hf] at flight
  | resting hc flight => simp [hf] at flight
  | disposing course older calling job left hc flight => simp [hf] at flight
  | accepting course older calling module' generation' taken' left' hc flight disposes registered
      reached accepts courses done running acts =>
    obtain ⟨rfl, rfl, rfl, rfl, rfl⟩ : false = calling ∧ module = module' ∧
        generation = generation' ∧ taken = taken' ∧ callback :: left = left' := by
      simpa [hf] using flight
    refine .accepting { course with acts := course.acts ++ [.call .accept callback module] } older
      true module generation taken left hc
      (hs.flightsOf_self ⟨true, ⟨id, .accepting module generation taken left⟩⟩ rfl) disposes
      registered reached accepts ?_ done running ?_
    · simp [Account.note, Account.act, courses]
    · simpa [Flight.pending, rounds, Sequence.phase, Course.plan] using acts

theorem pending_returned (s : Running) :
    Flight.pending ⟨true, s⟩ = .back s.phase :: Flight.pending ⟨false, s⟩ := rfl

theorem returned {s : Running} (hv : Followed s.context a ⟨r, A ++ ⟨true, s⟩ :: B⟩)
    (hs : Sound ⟨r, A ++ ⟨true, s⟩ :: B⟩) :
    Followed s.context (a.note (.returned s.context s.phase)) ⟨r, A ++ ⟨false, s⟩ :: B⟩ := by
  have hf : flightsOf (A ++ ⟨true, s⟩ :: B) s.context = [⟨true, s⟩] := hs.flightsOf_self _ rfl
  have hf' : flightsOf (A ++ ⟨false, s⟩ :: B) s.context = [⟨false, s⟩] :=
    hs.flightsOf_self ⟨false, s⟩ rfl
  cases hv with
  | unknown hc flight => simp [hf] at flight
  | resting hc flight => simp [hf] at flight
  | disposing course older calling job left hc flight disposes registered accepts courses done
      current running acts =>
    obtain ⟨rfl, hstage⟩ : true = calling ∧ s = ⟨s.context, .disposing job left⟩ := by
      simpa [hf] using flight
    rw [← hstage, pending_returned] at acts
    refine .disposing { course with acts := course.acts ++ [.back s.phase] } older false job left hc
      (hf'.trans (by rw [← hstage])) disposes registered accepts ?_ done current running ?_
    · simp [Account.note, Account.act, courses]
    · rw [← hstage, List.append_assoc]
      exact acts
  | accepting course older calling module generation taken left hc flight disposes registered
      reached accepts courses done running acts =>
    obtain ⟨rfl, hstage⟩ : true = calling ∧
        s = ⟨s.context, .accepting module generation taken left⟩ := by
      simpa [hf] using flight
    rw [← hstage, pending_returned] at acts
    refine .accepting { course with acts := course.acts ++ [.back s.phase] } older false module
      generation taken left hc (hf'.trans (by rw [← hstage])) disposes registered reached accepts ?_
      done running ?_
    · simp [Account.note, Account.act, courses]
    · rw [← hstage, List.append_assoc]
      exact acts

theorem pruned {s : Running} (hv : Followed s.context a ⟨r, A ++ ⟨false, s⟩ :: B⟩)
    (hs : Sound ⟨r, A ++ ⟨false, s⟩ :: B⟩) (hstage : s.stage = .disposing .prune []) :
    Followed s.context (a.note (.ended s.context .prune))
      ⟨s.release ((r.unregister (s.path r) s.context).modify s.context
        fun c => { c with queue := [] }), A ++ B⟩ := by
  have hf : flightsOf (A ++ ⟨false, s⟩ :: B) s.context = [⟨false, s⟩] := hs.flightsOf_self _ rfl
  obtain ⟨id, stage⟩ := s
  obtain rfl : stage = .disposing .prune [] := hstage
  cases hv with
  | unknown hc flight => simp [hf] at flight
  | resting hc flight => simp [hf] at flight
  | @disposing c course older calling job left hc flight disposes registered accepts courses done
      current running acts =>
    obtain ⟨rfl, rfl, rfl⟩ : false = calling ∧ .prune = job ∧ [] = left := by
      simpa [hf] using flight
    have hdone : { course with ended := true }.Done := by
      refine ⟨rfl, ?_⟩
      simpa [Flight.pending, rounds, Course.plan, current] using acts
    have hc₁ :
        (r.unregister (Sequence.path ⟨id, .disposing .prune []⟩ r) id).context? id = some c := hc
    refine .resting (Registry.context?_modify_self (Registry.context?_modify_self hc₁ _) _)
      (.inl hs.flightsOf_left) disposes ?_ accepts ?_
    · simpa [Account.note] using registered
    · simpa [Account.note, courses] using ⟨hdone, done⟩
  | accepting course older calling module generation taken left hc flight => simp [hf] at flight

theorem accepted {s : Running} {module : Option Value} {generation : Nat}
    {taken : List (Callback Action)} (hv : Followed s.context a ⟨r, A ++ ⟨false, s⟩ :: B⟩)
    (hs : Sound ⟨r, A ++ ⟨false, s⟩ :: B⟩)
    (hstage : s.stage = .accepting module generation taken []) :
    ∃ c, (s.putBack r (s.path r) generation taken).context? s.context = some c ∧
      c.disposes = a.disposes ∧ a.registered = a.disposed ++ a.disposes ∧ c.accepts = a.accepts ∧
      ∀ course ∈ (a.note (.ended s.context (.update module))).courses, course.Done := by
  have hf : flightsOf (A ++ ⟨false, s⟩ :: B) s.context = [⟨false, s⟩] := hs.flightsOf_self _ rfl
  cases hv with
  | unknown hc flight => simp [hf] at flight
  | resting hc flight =>
    obtain ⟨id, stage⟩ := s
    obtain rfl : stage = .accepting module generation taken [] := hstage
    simp [hf] at flight
  | disposing course older calling job left hc flight =>
    obtain ⟨id, stage⟩ := s
    obtain rfl : stage = .accepting module generation taken [] := hstage
    simp [hf] at flight
  | @accepting c course older calling module' generation' taken' left hc flight disposes registered
      reached accepts courses done running acts =>
    obtain ⟨rfl, hsame⟩ : false = calling ∧
        s = ⟨s.context, .accepting module' generation' taken' left⟩ := by
      simpa [hf] using flight
    obtain ⟨rfl, rfl, rfl, rfl⟩ : module = module' ∧ generation = generation' ∧ taken = taken' ∧
        [] = left := by
      have hstages := hstage.symm.trans (congrArg Sequence.stage hsame)
      simpa using hstages
    have hacts : course.acts = course.plan := by simpa [Flight.pending, rounds] using acts
    have hdone : { course with ended := true }.Done := ⟨rfl, hacts⟩
    refine ⟨_, hs.putBack_context? hc generation taken, ?_, registered, ?_, ?_⟩
    · split <;> exact disposes
    · rw [accepts]
      split <;> rfl
    · simpa [Account.note, courses] using ⟨hdone, done⟩

theorem resumed {s : Running} {module : Option Value} {generation : Nat}
    {taken : List (Callback Action)} {job : Job Value} {rest : List (Job Value)}
    (hv : Followed s.context a ⟨r, A ++ ⟨false, s⟩ :: B⟩) (hs : Sound ⟨r, A ++ ⟨false, s⟩ :: B⟩)
    (hstage : s.stage = .accepting module generation taken []) :
    Followed s.context (a.note (.ended s.context (.update module)))
      ⟨(s.putBack r (s.path r) generation taken).modify s.context fun c => { c with queue := rest },
        A ++ ⟨false, ⟨s.context, .starting job⟩⟩ :: B⟩ := by
  obtain ⟨c, hc, disposes, registered, accepts, courses⟩ := hv.accepted hs hstage
  exact .resting (Registry.context?_modify_self hc _)
    (.inr ⟨job, hs.flightsOf_self ⟨false, ⟨s.context, .starting job⟩⟩ rfl⟩) disposes registered
    accepts courses

theorem finished {s : Running} {module : Option Value} {generation : Nat}
    {taken : List (Callback Action)} (hv : Followed s.context a ⟨r, A ++ ⟨false, s⟩ :: B⟩)
    (hs : Sound ⟨r, A ++ ⟨false, s⟩ :: B⟩)
    (hstage : s.stage = .accepting module generation taken []) :
    Followed s.context (a.note (.ended s.context (.update module)))
      ⟨s.release (s.putBack r (s.path r) generation taken), A ++ B⟩ := by
  obtain ⟨c, hc, disposes, registered, accepts, courses⟩ := hv.accepted hs hstage
  exact .resting (Registry.context?_modify_self hc _) (.inl hs.flightsOf_left) disposes registered
    accepts courses

end Followed

/-! ### Every change keeps to the accounts -/

theorem Change.followed_self {σ τ : Scene} {h : Happening} {a : Account} (hc : Change σ h τ)
    (hs : Sound σ) (hd : ∀ id, h ≠ .dropped id) (hv : Followed h.context a σ) :
    Followed h.context (a.note h) τ := by
  cases hc with
  | made path hf => exact hv.made hf
  | reused hf => exact hv.handedOut
  | accepts id callback => exact hv.acceptAdded callback
  | disposes id callback => exact hv.disposeAdded callback
  | marked id => exact hv.modified (fun _ => rfl) (fun _ => rfl) fun _ => rfl
  | wrote id f => exact hv.modified (fun _ => rfl) (fun _ => rfl) fun _ => rfl
  | queued job hf busy => exact hv.modified (fun _ => rfl) (fun _ => rfl) fun _ => rfl
  | granted job hf hctx free => exact hv.granted hs hf hctx free
  | begun id job => exact hv.begun hs
  | calledDispose id job callback left => exact hv.calledDispose hs
  | turned id module => exact hv.turned hs
  | calledAccept id module generation taken callback left => exact hv.calledAccept hs
  | returned s => exact hv.returned hs
  | pruned s hstage => exact hv.pruned hs hstage
  | resumed s hstage hq => exact hv.resumed hs hstage
  | finished s hstage hq => exact hv.finished hs hstage
  | dropped f => exact absurd rfl (hd f.context)

theorem Change.followed {σ τ : Scene} {h : Happening} {hs : List Happening} (id : Nat)
    (hc : Change σ h τ) (hsound : Sound σ) (hd : ∀ id, h ≠ .dropped id)
    (hv : Followed id (account id hs) σ) : Followed id (account id (hs ++ [h])) τ := by
  by_cases hid : h.context = id
  · subst hid
    rw [account_snoc_self]
    exact hc.followed_self hsound hd hv
  · -- the account leaves out what happens to another context
    have hagree := hc.agree hsound hid
    rw [account_snoc_ne hs hid]
    refine hv.quiet (g := fun c => c) ?_ (fun _ => rfl) (fun _ => rfl) (fun _ => rfl) hagree.flights
    rw [hagree.context, Option.map_id']

theorem Changes.followed {σ τ : Scene} {hs : List Happening} (id : Nat) (hc : Changes σ hs τ)
    (h : Sound σ) (hd : ∀ id, .dropped id ∉ hs) (hv : Followed id {} σ) :
    Followed id (account id hs) τ := by
  induction hc with
  | refl => exact hv
  | next hfirst hlast ih =>
    have hd' := fun id hmem => hd id (List.mem_append_left _ hmem)
    refine hlast.followed id (hfirst.sound h) ?_ (ih hd')
    rintro j rfl
    exact hd j (by simp)

/-! ### Runs -/

namespace World

theorem run_followed (modules : List (String × List Action)) (turns : List Turn) (id : Nat)
    (h : (initial modules).Undropped turns) :
    Followed id (account id ((initial modules).history turns))
      ((initial modules).after turns).scene :=
  (run_changes modules turns).followed id .empty h
    (.unknown (by simp [Registry.context?]) rfl rfl rfl)

theorem courses_planned {id : Nat} {a : Account} {σ : Scene} (hv : Followed id a σ) :
    ∀ course ∈ a.courses, course.acts <+: course.plan ∧
      (course.ended = true → course.acts = course.plan) := by
  have finished : ∀ course : Course, course.Done → course.acts <+: course.plan ∧
      (course.ended = true → course.acts = course.plan) :=
    fun course hdone => ⟨hdone.2 ▸ List.prefix_rfl, fun _ => hdone.2⟩
  intro course hmem
  cases hv with
  | unknown hc flight courses => simp [courses] at hmem
  | resting hc flight disposes registered accepts courses =>
    exact finished course (courses course hmem)
  | disposing current older calling job left hc flight disposes registered accepts courses done
      hjob running acts =>
    rcases List.mem_cons.mp (courses ▸ hmem) with rfl | hold
    · -- the current course has come as far as its own calls
      refine ⟨?_, fun hended => by simp [running] at hended⟩
      have hfirst : course.acts <+: rounds .dispose none course.disposes := ⟨_, acts⟩
      exact hfirst.trans (List.prefix_append _ _)
    · exact finished course (done course hold)
  | accepting current older calling module generation taken left hc flight disposes registered
      reached accepts courses done running acts =>
    rcases List.mem_cons.mp (courses ▸ hmem) with rfl | hold
    · exact ⟨⟨_, acts⟩, fun hended => by simp [running] at hended⟩
    · exact finished course (done course hold)

theorem courses_ended {id : Nat} {a : Account} {σ : Scene} (hv : Followed id a σ)
    (hf : flightsOf σ.flights id = []) : ∀ course ∈ a.courses, course.ended = true := by
  cases hv with
  | unknown hc flight courses => simp [courses]
  | resting hc flight disposes registered accepts courses =>
    exact fun course hmem => (courses course hmem).1
  | disposing course older calling job left hc flight => simp [hf] at flight
  | accepting course older calling module generation taken left hc flight => simp [hf] at flight

theorem disposed_registered {id : Nat} {a : Account} {σ : Scene} (hv : Followed id a σ) :
    a.disposed <+: a.registered := by
  cases hv with
  | unknown hc flight courses disposed => simp [disposed]
  | resting hc flight disposes registered => exact registered ▸ List.prefix_append _ _
  | disposing course older calling job left hc flight disposes registered =>
    rw [registered, List.append_assoc]
    exact List.prefix_append _ _
  | accepting course older calling module generation taken left hc flight disposes registered =>
    exact registered ▸ List.prefix_append _ _

theorem lists_kept {id : Nat} {a : Account} {σ : Scene} (hv : Followed id a σ)
    {c : Context (Callback Action) Value} (hc : σ.registry.context? id = some c) :
    c.disposes = a.disposes ∧
      ((∀ f ∈ flightsOf σ.flights id, f.sequence.phase = .dispose) → c.accepts = a.accepts) := by
  cases hv with
  | unknown hnone => exact absurd (hnone.symm.trans hc) (by simp)
  | resting hc' flight disposes registered accepts =>
    obtain rfl := Option.some.inj (hc'.symm.trans hc)
    exact ⟨disposes, fun _ => accepts⟩
  | disposing course older calling job left hc' flight disposes registered accepts =>
    obtain rfl := Option.some.inj (hc'.symm.trans hc)
    exact ⟨disposes, fun _ => accepts⟩
  | accepting course older calling module generation taken left hc' flight disposes =>
    obtain rfl := Option.some.inj (hc'.symm.trans hc)
    exact ⟨disposes, fun hphase => by simp [flight, Sequence.phase] at hphase⟩

/-- A callback of a context has begun on a task: it has all that it does still to do and can refer to
what its phase gives it. -/
def Begins (w : World) (t id : Nat) (phase : Phase) (callback : Callback Action)
    (module : Option Value) : Prop :=
  ∃ answer s below, s.context = id ∧ w.tasks[t]? =
    some (.script (phase.scope id module) callback.actions :: .sequence answer s :: below)

theorem step_of_called {s : Running} {id : Nat} {phase : Phase} {callback : Callback Action}
    {module : Option Value} (h : s.happening = .called id phase callback module) (r : Contexts) :
    ∃ next, s.step r = (.call phase callback module next, r, []) ∧ next.context = id := by
  obtain ⟨context, stage⟩ := s
  cases stage with
  | starting job => cases h
  | disposing job left =>
    cases left with
    | cons callback left =>
      cases h
      exact ⟨_, rfl, rfl⟩
    | nil => cases job <;> cases h
  | accepting module generation taken left =>
    cases left with
    | cons callback left =>
      cases h
      exact ⟨_, rfl, rfl⟩
    | nil => cases h

theorem called_begins {w : World} {turn : Turn} {id : Nat} {phase : Phase}
    {callback : Callback Action} {module : Option Value}
    (h : .called id phase callback module ∈ w.happenings turn) :
    ∃ t, turn = .step t ∧ (w.turn turn).Begins t id phase callback module := by
  -- only a step of a sequence calls; all other turns are ruled out first
  have heffect : ∀ scope effect,
      .called id phase callback module ∉ w.effectHappenings scope effect := by
    intro scope effect
    cases effect with
    | create path handle =>
      rw [effectHappenings]
      split <;> simp
    | _ => simp [effectHappenings]
  cases turn with
  | operate operation =>
    cases operation with
    | effect effect => exact absurd h (heffect _ _)
    | start command => cases h
    | cancel t => simp [happenings] at h
  | step t =>
    refine ⟨t, rfl, ?_⟩
    obtain ⟨frames, hframes⟩ : ∃ frames, w.tasks[t]? = some frames := by
      cases ht : w.tasks[t]? with
      | some frames => exact ⟨frames, rfl⟩
      | none =>
        rw [happenings, ht] at h
        cases h
    have hstep : .called id phase callback module ∈ w.stepHappenings frames := by
      rwa [happenings, hframes] at h
    unfold stepHappenings at hstep
    split at hstep
    · simp at hstep
    · simp at hstep
    · simp at hstep
    · exact absurd hstep (heffect _ _)
    · simp at hstep
    · rename_i answer s below
      have hcalled : s.happening = .called id phase callback module :=
        (List.mem_singleton.mp hstep).symm
      obtain ⟨next, hnext, hcontext⟩ := step_of_called hcalled w.registry
      refine ⟨answer, next, below, hcontext, ?_⟩
      have hlt := (List.getElem?_eq_some_iff.mp hframes).1
      simp only [turn, World.step, hframes, stepFrame, advanceSequence, hnext]
      cases phase <;> simp [hlt, hcontext, Phase.scope]
    · cases hstep

/-- Every sequence does what its plan says and nothing else, in the order of the plan: it calls what
was registered to dispose since the sequence before began, each once and each when the one before is
back, and an update then calls what was registered to accept since its context was last handed out.
What is called to dispose is, one for one, what was ever registered. While no accepting callback is
running, the context has all that was registered to accept since it was last handed out. A callback
that is called has all that it does still to do, with the instance of its update or the data of its
context to refer to, and what is left of it refers to the same until its end. -/
theorem callbacks_in_order (modules : List (String × List Action)) (turns : List Turn) (id : Nat)
    (h : (initial modules).Undropped turns) :
    let w := (initial modules).after turns
    let a := account id ((initial modules).history turns)
    (∀ course ∈ a.courses, course.acts <+: course.plan ∧
      (course.ended = true → course.acts = course.plan)) ∧
    (flightsOf w.flights id = [] → ∀ course ∈ a.courses, course.ended = true) ∧
    a.disposed <+: a.registered ∧
    (∀ c, w.registry.context? id = some c → c.disposes = a.disposes ∧
      ((∀ f ∈ flightsOf w.flights id, f.sequence.phase = .dispose) → c.accepts = a.accepts)) ∧
    (∀ before turn later, turns = before ++ turn :: later → ∀ phase callback module,
      .called id phase callback module ∈ ((initial modules).after before).happenings turn →
        ∃ t, turn = .step t ∧
          ((initial modules).after (before ++ [turn])).Begins t id phase callback module) ∧
    ∀ (t : Nat) (above : List Frame) (scope : Scope) (rest : List Action) (answer : Returned)
      (s : Running) (below : List Frame),
      w.tasks[t]? = some (above ++ Frame.script scope rest :: Frame.sequence answer s :: below) →
        scope = s.given := by
  intro w a
  have hv : Followed id a w.scene := run_followed modules turns id h
  refine ⟨courses_planned hv, courses_ended hv, disposed_registered hv,
    fun c hc => lists_kept hv hc, ?_, ?_⟩
  · intro before turn later _ phase callback module hcalled
    rw [after_append]
    exact called_begins hcalled
  · intro t above scope rest answer s below ht
    exact Stacked.given (after_wellStacked modules turns _ (List.mem_of_getElem? ht))

def reloadedMeanwhile : List Turn :=
  [Turn.operate (.effect (.create "/a" (some "a"))),
    .operate (.effect (.dispose "a" { atOnce := [.effect (.dispose "a" {})] })),
    .operate (.effect (.accept "a"
      { atOnce := [.effect (.create "/a" none)], steps := [.effect (.accept "a" {})] })),
    .operate (.start (.apply "/a" (some .null)))] ++ List.replicate 11 (Turn.step 0)

theorem callbacks_in_order_reloadedMeanwhile :
    let a := account 0 ((initial []).history reloadedMeanwhile)
    (initial []).Undropped reloadedMeanwhile ∧ a.courses.length = 1 ∧
    (∀ course ∈ a.courses, course.acts = course.plan) ∧ a.disposed <+: a.registered ∧
    (∀ c, ((initial []).after reloadedMeanwhile).registry.context? 0 = some c →
      c.disposes = [{}] ∧ c.accepts = [{}]) ∧
    ((initial []).after (reloadedMeanwhile.take 11)).Begins 0 0 .accept
      { atOnce := [.effect (.create "/a" none)], steps := [.effect (.accept "a" {})] }
      (some .null) := by
  have hdrop : (initial []).Undropped reloadedMeanwhile :=
    undropped_of_uncancelled _ _ (by simp [reloadedMeanwhile])
  obtain ⟨hplan, hended, hdisposed, hlists, hcalled, -⟩ :=
    callbacks_in_order [] reloadedMeanwhile 0 hdrop
  have hnone : flightsOf ((initial []).after reloadedMeanwhile).flights 0 = [] := rfl
  refine ⟨hdrop, rfl, fun course hmem => (hplan course hmem).2 (hended hnone course hmem),
    hdisposed, fun c hc => ?_, ?_⟩
  · obtain ⟨hdisposes, haccepts⟩ := hlists c hc
    exact ⟨hdisposes, haccepts (by simp [hnone])⟩
  · obtain ⟨t, ht, hbegins⟩ := hcalled (reloadedMeanwhile.take 10) (.step 0)
      (reloadedMeanwhile.drop 11) rfl .accept _ (some .null) (List.mem_singleton_self _)
    cases ht
    exact hbegins

end World

end ModuleHost.Hot
