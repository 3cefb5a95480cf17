import ModuleHost.Proofs.Hot.Locality

/-! The requests of a context are served one after the other in the order in which they were made,
up to the first prune; none is lost. -/

namespace ModuleHost.Hot

open ModuleHost.Json

inductive Mark where
  | begun (job : Job Value)
  | ended (job : Job Value)

def Mark.begun? : Mark → Option (Job Value)
  | .begun job => some job
  | .ended _ => none

def Mark.ended? : Mark → Option (Job Value)
  | .begun _ => none
  | .ended job => some job

/-- The marks of a sequence that has run from its beginning to its end. -/
def Mark.both (job : Job Value) : List Mark := [.begun job, .ended job]

def Happening.request? (id : Nat) : Happening → Option (Job Value)
  | .asked j job => if j = id then some job else none
  | _ => none

def Happening.mark? (id : Nat) : Happening → Option Mark
  | .begun j job => if j = id then some (.begun job) else none
  | .ended j job => if j = id then some (.ended job) else none
  | _ => none

/-- The requests that found a context registered. -/
def asked (id : Nat) (hs : List Happening) : List (Job Value) :=
  hs.filterMap (Happening.request? id)

def marks (id : Nat) (hs : List Happening) : List Mark := hs.filterMap (Happening.mark? id)

def begun (id : Nat) (hs : List Happening) : List (Job Value) := (marks id hs).filterMap Mark.begun?

def ended (id : Nat) (hs : List Happening) : List (Job Value) := (marks id hs).filterMap Mark.ended?

/-- Requests up to the first prune, and with it. -/
def upToPrune : List (Job Value) → List (Job Value)
  | [] => []
  | .update module :: jobs => .update module :: upToPrune jobs
  | .prune :: _ => [.prune]

theorem upToPrune_append {done : List (Job Value)} (h : Job.prune ∉ done)
    (more : List (Job Value)) : upToPrune (done ++ more) = done ++ upToPrune more := by
  induction done with
  | nil => rfl
  | cons job done ih =>
    have hdone : Job.prune ∉ done := fun hmem => h (List.mem_cons_of_mem _ hmem)
    cases job with
    | update module => simp [upToPrune, ih hdone]
    | prune => simp at h

theorem upToPrune_eq_self {done : List (Job Value)} (h : Job.prune ∉ done) :
    upToPrune done = done := by
  simpa [upToPrune] using upToPrune_append h []

theorem upToPrune_isPrefix (jobs : List (Job Value)) : upToPrune jobs <+: jobs := by
  induction jobs with
  | nil => exact List.prefix_rfl
  | cons job jobs ih =>
    cases job with
    | update module => exact List.cons_prefix_cons.mpr ⟨rfl, ih⟩
    | prune => exact ⟨jobs, rfl⟩

theorem begun_both (jobs : List (Job Value)) :
    (jobs.flatMap Mark.both).filterMap Mark.begun? = jobs := by
  induction jobs with
  | nil => rfl
  | cons job jobs ih =>
    rw [List.flatMap_cons, List.filterMap_append, ih]
    rfl

theorem ended_both (jobs : List (Job Value)) :
    (jobs.flatMap Mark.both).filterMap Mark.ended? = jobs := by
  induction jobs with
  | nil => rfl
  | cons job jobs ih =>
    rw [List.flatMap_cons, List.filterMap_append, ih]
    rfl

theorem asked_snoc (id : Nat) (hs : List Happening) (h : Happening) :
    asked id (hs ++ [h]) = asked id hs ++ (h.request? id).toList := filterMap_snoc _ hs h

theorem marks_snoc (id : Nat) (hs : List Happening) (h : Happening) :
    marks id (hs ++ [h]) = marks id hs ++ (h.mark? id).toList := filterMap_snoc _ hs h

theorem Happening.request?_ne {h : Happening} {id : Nat} (hne : h.context ≠ id) :
    h.request? id = none := by
  cases h with
  | asked j job => exact if_neg hne
  | _ => rfl

theorem Happening.mark?_ne {h : Happening} {id : Nat} (hne : h.context ≠ id) :
    h.mark? id = none := by
  cases h with
  | begun j job => exact if_neg hne
  | ended j job => exact if_neg hne
  | _ => rfl

/-! ### How the requests of a context stand -/

def Flight.standing (f : Flight) : Job Value × List Mark :=
  match f.sequence.stage with
  | .starting job => (job, [])
  | .disposing job _ => (job, [.begun job])
  | .accepting module .. => (.update module, [.begun (.update module)])

theorem standing_left_eq {f : Flight} {job : Job Value} {left : List Mark}
    (h : f.standing = (job, left)) : left = [] ∨ left = [.begun job] := by
  unfold Flight.standing at h
  split at h <;> obtain ⟨rfl, rfl⟩ := Prod.mk.inj h
  · exact .inl rfl
  · exact .inr rfl
  · exact .inr rfl

theorem begun_within {f : Flight} {job : Job Value} {left : List Mark}
    (h : f.standing = (job, left)) (queue : List (Job Value)) :
    left.filterMap Mark.begun? <+: upToPrune (job :: queue) := by
  rcases standing_left_eq h with rfl | rfl
  · exact List.nil_prefix
  · cases job with
    | update module => exact ⟨upToPrune queue, rfl⟩
    | prune => exact List.prefix_rfl

theorem left_within {f : Flight} {job : Job Value} {left : List Mark}
    (h : f.standing = (job, left)) : left <+: (left.filterMap Mark.begun?).flatMap Mark.both := by
  rcases standing_left_eq h with rfl | rfl
  · exact List.nil_prefix
  · exact ⟨[.ended job], rfl⟩

def standing (flights : List Flight) (id : Nat) : List (Job Value × List Mark) :=
  (flightsOf flights id).map Flight.standing

def Registered (r : Contexts) (id : Nat) : Prop := ∃ path, r.find? path = some id

inductive Served (id : Nat) (hs : List Happening) (σ : Scene) : Prop where
  | unknown (context : σ.registry.context? id = none) (flight : standing σ.flights id = [])
      (requests : asked id hs = []) (trail : marks id hs = [])
  | idle {c : Context (Callback Action) Value} (done : List (Job Value))
      (context : σ.registry.context? id = some c) (registered : Registered σ.registry id)
      (flight : standing σ.flights id = []) (queue : c.queue = []) (updates : Job.prune ∉ done)
      (requests : asked id hs = done) (trail : marks id hs = done.flatMap Mark.both)
  | running {c : Context (Callback Action) Value} (done : List (Job Value)) {job : Job Value}
      {left : List Mark}
      (context : σ.registry.context? id = some c) (registered : Registered σ.registry id)
      (flight : standing σ.flights id = [(job, left)]) (updates : Job.prune ∉ done)
      (requests : asked id hs = done ++ job :: c.queue)
      (trail : marks id hs = done.flatMap Mark.both ++ left)
  | forgotten {c : Context (Callback Action) Value} (done behind : List (Job Value))
      (context : σ.registry.context? id = some c) (registered : ¬Registered σ.registry id)
      (flight : standing σ.flights id = []) (queue : c.queue = []) (updates : Job.prune ∉ done)
      (requests : asked id hs = done ++ Job.prune :: behind)
      (trail : marks id hs = (done ++ [Job.prune]).flatMap Mark.both)

namespace Served

variable {id : Nat} {hs : List Happening} {h : Happening} {σ τ : Scene}

theorem quiet (hv : Served id hs σ) {g : Context (Callback Action) Value →
      Context (Callback Action) Value}
    (hctx : τ.registry.context? id = (σ.registry.context? id).map g)
    (hg : ∀ c, (g c).queue = c.queue)
    (hreg : ∀ path, τ.registry.find? path = some id ↔ σ.registry.find? path = some id)
    (hf : standing τ.flights id = standing σ.flights id)
    (hr : h.request? id = none) (hm : h.mark? id = none) : Served id (hs ++ [h]) τ := by
  have hasked : asked id (hs ++ [h]) = asked id hs := by
    rw [asked_snoc, hr, Option.toList_none, List.append_nil]
  have hmarks : marks id (hs ++ [h]) = marks id hs := by
    rw [marks_snoc, hm, Option.toList_none, List.append_nil]
  have hiff : Registered τ.registry id ↔ Registered σ.registry id := exists_congr hreg
  cases hv with
  | unknown hc hf' ha hm =>
    exact .unknown (by rw [hctx, hc, Option.map_none]) (hf.trans hf') (hasked.trans ha)
      (hmarks.trans hm)
  | @idle c done hc hr hf' hq hp ha hm =>
    exact .idle done (by rw [hctx, hc, Option.map_some]) (hiff.mpr hr) (hf.trans hf')
      ((hg c).trans hq) hp (hasked.trans ha) (hmarks.trans hm)
  | @running c done job left hc hr hf' hp ha hm =>
    exact .running done (by rw [hctx, hc, Option.map_some]) (hiff.mpr hr) (hf.trans hf') hp
      (by rw [hasked, ha, hg]) (hmarks.trans hm)
  | @forgotten c done behind hc hr hf' hq hp ha hm =>
    exact .forgotten done behind (by rw [hctx, hc, Option.map_some]) (fun h => hr (hiff.mp h))
      (hf.trans hf') ((hg c).trans hq) hp (hasked.trans ha) (hmarks.trans hm)

variable {r : Contexts} {L A B : List Flight} {f g : Flight}

theorem standing_self (h : Sound ⟨r, A ++ f :: B⟩) (g : Flight) (hg : g.context = f.context) :
    standing (A ++ g :: B) f.context = [g.standing] := by
  rw [standing, h.flightsOf_self g hg, List.map_singleton]

theorem standing_swap (h : Sound ⟨r, A ++ f :: B⟩) (hf : f.context = id) (hg : g.context = id)
    (hsame : g.standing = f.standing) : standing (A ++ g :: B) id = standing (A ++ f :: B) id := by
  subst hf
  rw [standing_self h g hg, standing_self h f rfl, hsame]

theorem standing_left (h : Sound ⟨r, A ++ f :: B⟩) : standing (A ++ B) f.context = [] := by
  rw [standing, h.flightsOf_left, List.map_nil]

theorem standing_of_free (h : Sound ⟨r, L⟩) {c : Context (Callback Action) Value}
    (hc : r.context? id = some c) (free : c.busy = false) : standing L id = [] := by
  rw [standing, h.flightsOf_of_free hc free, List.map_nil]

theorem standing_of_busy (h : Sound ⟨r, L⟩) {c : Context (Callback Action) Value}
    (hc : r.context? id = some c) (busy : c.busy = true) : standing L id ≠ [] := by
  intro hnil
  exact h.flightsOf_of_busy hc busy (List.map_eq_nil_iff.mp hnil)

theorem idle_inv (hv : Served id hs σ) (hs' : Sound σ) (hr : Registered σ.registry id)
    (hf : standing σ.flights id = []) : ∃ c, σ.registry.context? id = some c ∧ c.queue = [] ∧
      Job.prune ∉ asked id hs ∧ marks id hs = (asked id hs).flatMap Mark.both := by
  cases hv with
  | unknown hc hf' ha hm =>
    obtain ⟨path, hfind⟩ := hr
    obtain ⟨c, hc', -⟩ := Sound.registered hs' hfind
    rw [hc] at hc'
    cases hc'
  | @idle c done hc hr hf hq hp ha hm => exact ⟨c, hc, hq, ha ▸ hp, ha ▸ hm⟩
  | running done hc hr hf' hp ha hm => simp [hf] at hf'
  | forgotten done behind hc hr' hf' hq hp ha hm => exact absurd hr hr'

theorem running_inv (hv : Served id hs σ) {job : Job Value} {left : List Mark}
    (hf : standing σ.flights id = [(job, left)]) : ∃ c done, σ.registry.context? id = some c ∧
      Registered σ.registry id ∧ Job.prune ∉ done ∧ asked id hs = done ++ job :: c.queue ∧
      marks id hs = done.flatMap Mark.both ++ left := by
  cases hv with
  | unknown hc hf' ha hm => simp [hf] at hf'
  | idle done hc hr hf' hq hp ha hm => simp [hf] at hf'
  | @running c done job' left' hc hr hf' hp ha hm =>
    rw [hf] at hf'
    simp only [List.cons.injEq, Prod.mk.injEq, and_true] at hf'
    obtain ⟨rfl, rfl⟩ := hf'
    exact ⟨c, done, hc, hr, hp, ha, hm⟩
  | forgotten done behind hc hr hf' hq hp ha hm => simp [hf] at hf'

theorem modified (hv : Served id hs ⟨r, L⟩)
    (g : Context (Callback Action) Value → Context (Callback Action) Value)
    (hg : ∀ c, (g c).queue = c.queue) (hf : standing B id = standing L id)
    (hr : h.request? id = none) (hm : h.mark? id = none) :
    Served id (hs ++ [h]) ⟨r.modify id g, B⟩ := by
  refine hv.quiet (g := g) ?_ hg (fun _ => Iff.rfl) hf hr hm
  simp

theorem moved (hv : Served id hs ⟨r, A ++ f :: B⟩)
    (hf : standing (A ++ g :: B) id = standing (A ++ f :: B) id)
    (hr : h.request? id = none) (hm : h.mark? id = none) :
    Served id (hs ++ [h]) ⟨r, A ++ g :: B⟩ :=
  hv.quiet (g := fun c => c) (by simp) (fun _ => rfl) (fun _ => Iff.rfl) hf hr hm

theorem made {path : String} (hv : Served r.contexts.length hs ⟨r, L⟩)
    (hfind : r.find? path = none) : Served r.contexts.length
      (hs ++ [Happening.made r.contexts.length path]) ⟨(r.create path).2.1, L⟩ := by
  have hnone : r.context? r.contexts.length = none := List.getElem?_eq_none (Nat.le_refl _)
  obtain ⟨hf, ha, hm⟩ : standing L r.contexts.length = [] ∧ asked r.contexts.length hs = [] ∧
      marks r.contexts.length hs = [] := by
    cases hv with
    | unknown hc hf ha hm => exact ⟨hf, ha, hm⟩
    | idle done hc => exact absurd (hnone.symm.trans hc) (by simp)
    | running done hc => exact absurd (hnone.symm.trans hc) (by simp)
    | forgotten done behind hc => exact absurd (hnone.symm.trans hc) (by simp)
  refine .idle (c := { path }) [] ?_ ⟨path, ?_⟩ hf rfl (by simp) ?_ ?_
  · exact (Registry.context?_create hfind _).trans (if_pos rfl)
  · exact (Registry.find?_create hfind _).trans (if_pos rfl)
  · rw [asked_snoc, ha]
    rfl
  · rw [marks_snoc, hm]
    rfl

theorem queued {path : String} {job : Job Value} (hv : Served id hs ⟨r, L⟩) (hs' : Sound ⟨r, L⟩)
    (hfind : r.find? path = some id) (busy : ∀ c, r.context? id = some c → c.busy = true) :
    Served id (hs ++ [Happening.asked id job]) ⟨r.enqueue id job, L⟩ := by
  obtain ⟨c, hc, -⟩ := Sound.registered hs' hfind
  -- what makes the context busy is the sequence that is running
  have hnot := standing_of_busy hs' hc (busy c hc)
  obtain ⟨⟨current, left⟩, hf⟩ : ∃ p, standing L id = [p] := by
    cases hv with
    | unknown hc hf ha hm => exact absurd hf hnot
    | idle done hc hr hf hq hp ha hm => exact absurd hf hnot
    | running done hc hr hf hp ha hm => exact ⟨_, hf⟩
    | forgotten done behind hc hr hf hq hp ha hm => exact absurd hf hnot
  obtain ⟨c, done, hc, hr, hp, ha, hm⟩ := hv.running_inv hf
  refine .running done (Registry.context?_modify_self hc _) hr hf hp ?_ ?_
  · rw [asked_snoc, ha]
    simp [Happening.request?]
  · rw [marks_snoc, hm]
    simp [Happening.mark?]

theorem granted {path : String} {c : Context (Callback Action) Value} {job : Job Value}
    (hv : Served id hs ⟨r, A ++ B⟩) (hs' : Sound ⟨r, A ++ B⟩) (hfind : r.find? path = some id)
    (hc : r.context? id = some c) (free : c.busy = false) : Served id (hs ++ [Happening.asked id job])
      ⟨r.setBusy id true, A ++ ⟨false, ⟨id, .starting job⟩⟩ :: B⟩ := by
  obtain ⟨c, hc, hq, hp, hm⟩ := hv.idle_inv hs' ⟨path, hfind⟩ (standing_of_free hs' hc free)
  have hnext : Sound ⟨r.setBusy id true, A ++ ⟨false, ⟨id, .starting job⟩⟩ :: B⟩ :=
    hs'.grant rfl hfind ‹_› free
  refine .running (asked id hs) (Registry.context?_modify_self hc _) ⟨path, hfind⟩
    (standing_self hnext ⟨false, ⟨id, .starting job⟩⟩ rfl) hp ?_ ?_
  · rw [asked_snoc]
    simp [Happening.request?, hq]
  · rw [marks_snoc, hm]
    simp [Happening.mark?]

theorem begun {job : Job Value} {g : Flight}
    (hv : Served id hs ⟨r, A ++ ⟨false, ⟨id, .starting job⟩⟩ :: B⟩)
    (hs' : Sound ⟨r, A ++ ⟨false, ⟨id, .starting job⟩⟩ :: B⟩) (hg : g.context = id)
    (hstand : g.standing = (job, [.begun job])) : Served id (hs ++ [Happening.begun id job])
      ⟨r.modify id fun c => { c with disposes := [] }, A ++ g :: B⟩ := by
  obtain ⟨c, done, hc, hr, hp, ha, hm⟩ :=
    hv.running_inv (standing_self hs' ⟨false, ⟨id, .starting job⟩⟩ rfl)
  refine .running done (Registry.context?_modify_self hc _) hr
    ((standing_self hs' g hg).trans (by rw [hstand])) hp ?_ ?_
  · rw [asked_snoc, ha]
    simp [Happening.request?]
  · rw [marks_snoc, hm]
    simp [Happening.mark?]

theorem not_registered_unregister (hs' : Sound ⟨r, L⟩) {c : Context (Callback Action) Value}
    (hc : r.context? id = some c) : ¬Registered (r.unregister c.path id) id := by
  rintro ⟨path, hfind⟩
  obtain ⟨hmem, hnot⟩ := Registry.mem_unregister.mp (Registry.find?_mem hfind)
  obtain ⟨c', hc', hpath⟩ := hs'.entries path id hmem
  rw [hc] at hc'
  cases hc'
  exact hnot ⟨hpath.symm, rfl⟩

theorem pruned {s : Running} (hv : Served s.context hs ⟨r, A ++ ⟨false, s⟩ :: B⟩)
    (hs' : Sound ⟨r, A ++ ⟨false, s⟩ :: B⟩) (hstage : s.stage = .disposing .prune []) :
    Served s.context (hs ++ [Happening.ended s.context .prune])
      ⟨s.release ((r.unregister (s.path r) s.context).modify s.context
        fun c => { c with queue := [] }), A ++ B⟩ := by
  have hstand : Flight.standing ⟨false, s⟩ = (.prune, [.begun .prune]) := by
    simp [Flight.standing, hstage]
  obtain ⟨c, done, hc, hr, hp, ha, hm⟩ :=
    hv.running_inv ((standing_self hs' ⟨false, s⟩ rfl).trans (by rw [hstand]))
  have hpath : s.path r = c.path := World.path_of_context hc
  refine .forgotten (c := { c with queue := [], busy := false }) done c.queue
    ?_ ?_ (standing_left hs') rfl hp ?_ ?_
  · have hc₁ : (r.unregister (s.path r) s.context).context? s.context = some c := hc
    exact Registry.context?_modify_self (Registry.context?_modify_self hc₁ _) _
  · rw [hpath]
    exact not_registered_unregister hs' hc
  · rw [asked_snoc, ha]
    simp [Happening.request?]
  · rw [marks_snoc, hm]
    simp [Happening.mark?, Mark.both]

theorem resumed {s : Running} {module : Option Value} {generation : Nat}
    {taken : List (Callback Action)} {job : Job Value} {rest : List (Job Value)}
    (hv : Served s.context hs ⟨r, A ++ ⟨false, s⟩ :: B⟩) (hs' : Sound ⟨r, A ++ ⟨false, s⟩ :: B⟩)
    (hstage : s.stage = .accepting module generation taken [])
    (hq : ((s.putBack r (s.path r) generation taken).context? s.context).map Context.queue =
      some (job :: rest)) :
    Served s.context (hs ++ [Happening.ended s.context (.update module)])
      ⟨(s.putBack r (s.path r) generation taken).modify s.context fun c => { c with queue := rest },
        A ++ ⟨false, ⟨s.context, .starting job⟩⟩ :: B⟩ := by
  have hstand : Flight.standing ⟨false, s⟩ = (.update module, [.begun (.update module)]) := by
    simp [Flight.standing, hstage]
  obtain ⟨c, done, hc, hr, hp, ha, hm⟩ :=
    hv.running_inv ((standing_self hs' ⟨false, s⟩ rfl).trans (by rw [hstand]))
  -- callbacks are put back, but the queue is as it was
  have hqueue : c.queue = job :: rest := by
    rw [putBack_queue, hc] at hq
    simpa using hq
  obtain ⟨c', hc', -⟩ := Option.map_eq_some_iff.mp hq
  refine .running (done ++ [Job.update module]) (Registry.context?_modify_self hc' _)
    (by simpa [Registered] using hr)
    (standing_self hs' ⟨false, ⟨s.context, .starting job⟩⟩ rfl) (by simpa using hp) ?_ ?_
  · rw [asked_snoc, ha, hqueue]
    simp [Happening.request?]
  · rw [marks_snoc, hm]
    simp [Happening.mark?, Mark.both]

theorem finished {s : Running} {module : Option Value} {generation : Nat}
    {taken : List (Callback Action)}
    (hv : Served s.context hs ⟨r, A ++ ⟨false, s⟩ :: B⟩) (hs' : Sound ⟨r, A ++ ⟨false, s⟩ :: B⟩)
    (hstage : s.stage = .accepting module generation taken [])
    (hq : ∀ c, (s.putBack r (s.path r) generation taken).context? s.context = some c →
      c.queue = []) :
    Served s.context (hs ++ [Happening.ended s.context (.update module)])
      ⟨s.release (s.putBack r (s.path r) generation taken), A ++ B⟩ := by
  have hstand : Flight.standing ⟨false, s⟩ = (.update module, [.begun (.update module)]) := by
    simp [Flight.standing, hstage]
  obtain ⟨c, done, hc, hr, hp, ha, hm⟩ :=
    hv.running_inv ((standing_self hs' ⟨false, s⟩ rfl).trans (by rw [hstand]))
  have hqueue := putBack_queue s r (s.path r) generation taken s.context
  rw [hc] at hqueue
  obtain ⟨c', hc', hsame⟩ := Option.map_eq_some_iff.mp hqueue
  have hempty : c.queue = [] := hsame.symm.trans (hq c' hc')
  refine .idle (done ++ [Job.update module]) (Registry.context?_modify_self hc' _)
    (by simpa [Registered, Sequence.release, Registry.setBusy] using hr) (standing_left hs')
    (hq c' hc') (by simpa using hp) ?_ ?_
  · rw [asked_snoc, ha, hempty]
    simp [Happening.request?]
  · rw [marks_snoc, hm]
    simp [Happening.mark?, Mark.both]

end Served

/-- While no sequence is in flight, all that were asked for have begun, up to the first prune. -/
theorem Served.begun_eq {id : Nat} {hs : List Happening} {σ : Scene} (hv : Served id hs σ)
    (hf : standing σ.flights id = []) : Hot.begun id hs = upToPrune (asked id hs) := by
  cases hv with
  | unknown hc hf' ha hm => rw [Hot.begun, hm, ha, List.filterMap_nil, upToPrune]
  | idle done hc hr hf' hq hp ha hm => rw [Hot.begun, hm, begun_both, ha, upToPrune_eq_self hp]
  | running done hc hr hf' hp ha hm => simp [hf] at hf'
  | forgotten done behind hc hr hf' hq hp ha hm =>
    rw [Hot.begun, hm, begun_both, ha, upToPrune_append hp, upToPrune]

theorem Served.begun_isPrefix {id : Nat} {hs : List Happening} {σ : Scene} (hv : Served id hs σ) :
    Hot.begun id hs <+: upToPrune (asked id hs) := by
  by_cases hnone : standing σ.flights id = []
  · exact hv.begun_eq hnone ▸ List.prefix_rfl
  · cases hv with
    | unknown hc hf ha hm => exact absurd hf hnone
    | idle done hc hr hf hq hp ha hm => exact absurd hf hnone
    | @running c done job left hc hr hf hp ha hm =>
      -- all jobs before the running one are complete, and no prune is among them
      obtain ⟨f, -, hstand⟩ := List.map_eq_singleton_iff.mp hf
      rw [Hot.begun, hm, List.filterMap_append, begun_both, ha, upToPrune_append hp]
      exact (List.prefix_append_right_inj _).mpr (begun_within hstand c.queue)
    | forgotten done behind hc hr hf hq hp ha hm => exact absurd hf hnone

theorem Served.marks_isPrefix {id : Nat} {hs : List Happening} {σ : Scene}
    (hv : Served id hs σ) : marks id hs <+: (Hot.begun id hs).flatMap Mark.both := by
  cases hv with
  | unknown hc hf ha hm => exact hm ▸ List.nil_prefix
  | idle done hc hr hf hq hp ha hm =>
    have hall : marks id hs = (Hot.begun id hs).flatMap Mark.both := by
      rw [Hot.begun, hm, begun_both]
    exact hall ▸ List.prefix_rfl
  | running done hc hr hf hp ha hm =>
    obtain ⟨f, -, hstand⟩ := List.map_eq_singleton_iff.mp hf
    rw [Hot.begun, hm, List.filterMap_append, begun_both, List.flatMap_append]
    exact (List.prefix_append_right_inj _).mpr (left_within hstand)
  | forgotten done behind hc hr hf hq hp ha hm =>
    have hall : marks id hs = (Hot.begun id hs).flatMap Mark.both := by
      rw [Hot.begun, hm, begun_both]
    exact hall ▸ List.prefix_rfl

theorem Served.queue_eq_nil {id : Nat} {hs : List Happening} {σ : Scene} (hv : Served id hs σ)
    (hf : standing σ.flights id = []) {c : Context (Callback Action) Value}
    (hc : σ.registry.context? id = some c) : c.queue = [] := by
  cases hv with
  | unknown hnone => exact absurd (hnone.symm.trans hc) (by simp)
  | idle done hc' hr hf' hq => exact Option.some.inj (hc'.symm.trans hc) ▸ hq
  | running done hc' hr hf' => simp [hf] at hf'
  | forgotten done behind hc' hr hf' hq => exact Option.some.inj (hc'.symm.trans hc) ▸ hq

/-! ### Every change keeps the requests in order -/

theorem Change.served_self {σ τ : Scene} {h : Happening} {hs : List Happening}
    (hc : Change σ h τ) (hs' : Sound σ) (hd : ∀ id, h ≠ .dropped id)
    (hv : Served h.context hs σ) : Served h.context (hs ++ [h]) τ := by
  cases hc with
  | made path hf => exact hv.made hf
  | reused hf => exact hv.modified _ (fun _ => rfl) rfl rfl rfl
  | accepts id callback => exact hv.modified _ (fun _ => rfl) rfl rfl rfl
  | disposes id callback => exact hv.modified _ (fun _ => rfl) rfl rfl rfl
  | marked id => exact hv.modified _ (fun _ => rfl) rfl rfl rfl
  | wrote id f => exact hv.modified _ (fun _ => rfl) rfl rfl rfl
  | queued job hf busy => exact hv.queued hs' hf busy
  | granted job hf hctx free => exact hv.granted hs' hf hctx free
  | begun id job => exact hv.begun hs' rfl rfl
  | calledDispose id job callback left =>
    exact hv.moved (Served.standing_swap hs' rfl rfl rfl) rfl rfl
  | turned id module =>
    exact hv.modified _ (fun _ => rfl) (Served.standing_swap hs' rfl rfl rfl) rfl rfl
  | calledAccept id module generation taken callback left =>
    exact hv.moved (Served.standing_swap hs' rfl rfl rfl) rfl rfl
  | returned s => exact hv.moved (Served.standing_swap hs' rfl rfl rfl) rfl rfl
  | pruned s hstage => exact hv.pruned hs' hstage
  | resumed s hstage hq => exact hv.resumed hs' hstage hq
  | finished s hstage hq => exact hv.finished hs' hstage hq
  | dropped f => exact absurd rfl (hd f.context)

theorem Change.served {σ τ : Scene} {h : Happening} {hs : List Happening} (id : Nat)
    (hc : Change σ h τ) (hs' : Sound σ) (hd : h ≠ .dropped id) (hv : Served id hs σ) :
    Served id (hs ++ [h]) τ := by
  by_cases hid : h.context = id
  · subst hid
    refine hc.served_self hs' ?_ hv
    rintro j rfl
    exact hd rfl
  · -- whatever happens to another context is no request and no mark here
    have hagree := hc.agree hs' hid
    refine hv.quiet (g := fun c => c) ?_ (fun _ => rfl) hagree.registered ?_
      (Happening.request?_ne hid) (Happening.mark?_ne hid)
    · rw [hagree.context, Option.map_id']
    · rw [standing, hagree.flights, standing]

theorem Changes.served {σ τ : Scene} {hs : List Happening} (id : Nat) (hc : Changes σ hs τ)
    (h : Sound σ) (hd : ∀ id, .dropped id ∉ hs) (hv : Served id [] σ) : Served id hs τ := by
  induction hc with
  | refl => exact hv
  | next hfirst hlast ih =>
    have hd' := fun id hmem => hd id (List.mem_append_left _ hmem)
    refine hlast.served id (hfirst.sound h) ?_ (ih hd')
    rintro rfl
    exact hd id (by simp)

/-! ### Runs -/

namespace World

theorem run_served (modules : List (String × List Action)) (turns : List Turn) (id : Nat)
    (h : (initial modules).Undropped turns) : Served id ((initial modules).history turns)
      ((initial modules).after turns).scene :=
  (run_changes modules turns).served id .empty h
    (.unknown (by simp [Registry.context?]) rfl rfl rfl)

/-- The sequences of a context are begun one after the other, none before the last has ended, in the
order of the requests that found the context registered and up to the first prune. Whenever none is
in flight, nothing waits and all of them have been run. -/
theorem requests_in_order (modules : List (String × List Action)) (turns : List Turn) (id : Nat)
    (h : (initial modules).Undropped turns) :
    let w := (initial modules).after turns
    let hs := (initial modules).history turns
    begun id hs <+: upToPrune (asked id hs) ∧
    marks id hs <+: (begun id hs).flatMap Mark.both ∧
    (flightsOf w.flights id = [] → (∀ c, w.registry.context? id = some c → c.queue = []) ∧
      begun id hs = upToPrune (asked id hs) ∧ ended id hs = upToPrune (asked id hs)) := by
  intro w hs
  have hv := run_served modules turns id h
  refine ⟨hv.begun_isPrefix, ?_⟩
  cases hv with
  | unknown hc hf ha hm =>
    have hb : begun id hs = [] := by rw [begun, hm, List.filterMap_nil]
    have he : ended id hs = [] := by rw [ended, hm, List.filterMap_nil]
    rw [hb, he, hm, ha]
    refine ⟨List.nil_prefix, fun _ => ⟨fun c hc' => ?_, rfl, rfl⟩⟩
    exact absurd (hc.symm.trans hc') (by simp)
  | @idle c done hc hr hf hq hp ha hm =>
    have hb : begun id hs = done := by rw [begun, hm, begun_both]
    have he : ended id hs = done := by rw [ended, hm, ended_both]
    rw [hb, he, hm, ha, upToPrune_eq_self hp]
    refine ⟨List.prefix_rfl, fun _ => ⟨fun c' hc' => ?_, rfl, rfl⟩⟩
    obtain rfl : c = c' := Option.some.inj (hc.symm.trans hc')
    exact hq
  | @running c done job left hc hr hf hp ha hm =>
    obtain ⟨f, hflight, hstand⟩ := List.map_eq_singleton_iff.mp hf
    have hsome : flightsOf w.flights id ≠ [] := by
      rw [show flightsOf w.flights id = [f] from hflight]
      exact List.cons_ne_nil _ _
    have hb : begun id hs = done ++ left.filterMap Mark.begun? := by
      rw [begun, hm, List.filterMap_append, begun_both]
    rw [hb, hm, List.flatMap_append]
    exact ⟨(List.prefix_append_right_inj _).mpr (left_within hstand), fun hnil => absurd hnil hsome⟩
  | @forgotten c done behind hc hr hf hq hp ha hm =>
    have hb : begun id hs = done ++ [Job.prune] := by rw [begun, hm, begun_both]
    have he : ended id hs = done ++ [Job.prune] := by rw [ended, hm, ended_both]
    rw [hb, he, hm, ha, upToPrune_append hp, upToPrune]
    refine ⟨List.prefix_rfl, fun _ => ⟨fun c' hc' => ?_, rfl, rfl⟩⟩
    obtain rfl : c = c' := Option.some.inj (hc.symm.trans hc')
    exact hq

def pruneRequested : List Turn :=
  [Turn.operate (.effect (.create "/a" (some "a"))),
    .operate (.effect (.dispose "a" { atOnce := [.prune "/a", .apply "/a" none] })),
    .operate (.start (.apply "/a" none))] ++ List.replicate 12 (Turn.step 0)

theorem requests_in_order_pruneRequested :
    let hs := (initial []).history pruneRequested
    (initial []).Undropped pruneRequested ∧
    asked 0 hs = [.update none, .prune, .update none] ∧ begun 0 hs <+: [.update none, .prune] ∧
    marks 0 hs <+: (begun 0 hs).flatMap Mark.both ∧ begun 0 hs = [.update none, .prune] ∧
    ended 0 hs = [.update none, .prune] := by
  have hdrop : (initial []).Undropped pruneRequested :=
    undropped_of_uncancelled _ _ (by simp [pruneRequested])
  obtain ⟨hbegun, hmarks, hidle⟩ := requests_in_order [] pruneRequested 0 hdrop
  obtain ⟨-, hall, hended⟩ := hidle rfl
  exact ⟨hdrop, rfl, hbegun, hmarks, hall, hended⟩

end World

end ModuleHost.Hot
