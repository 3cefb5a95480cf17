import ModuleHost.Proofs.Hot.Callbacks

/-! What a sequence loses when it is dropped with its task: the callbacks that it has taken from its
context, which are those it has still to start and those it would have put back. -/

namespace ModuleHost.Hot

open ModuleHost.Json

/-- The callbacks of a context that are there to be run, in its lists or in the hands of a sequence. -/
structure Stock where
  disposes : List (Callback Action) := []
  due : Nat := 0
  accepts : List (Callback Action) := []
  held : Nat := 0

def Stock.note (s : Stock) : Happening → Stock
  | .made .. => {}
  | .reused _ => { s with accepts := [], held := 0 }
  | .accepts _ callback => { s with accepts := s.accepts ++ [callback] }
  | .disposes _ callback => { s with disposes := s.disposes ++ [callback] }
  | .begun .. => { s with due := s.disposes.length }
  | .called _ .dispose _ _ => { s with disposes := s.disposes.tail, due := s.due - 1 }
  | .turned _ => { s with held := s.accepts.length }
  | .ended .. => { s with held := 0 }
  | .dropped _ => ⟨s.disposes.drop s.due, 0, s.accepts.drop s.held, 0⟩
  | .called _ .accept _ _ | .returned .. | .marked _ | .wrote _ | .asked .. => s

def stock (id : Nat) (hs : List Happening) : Stock :=
  hs.foldl (fun s h => if h.context = id then s.note h else s) {}

theorem stock_snoc_self (hs : List Happening) (h : Happening) :
    stock h.context (hs ++ [h]) = (stock h.context hs).note h := by
  simp [stock]

theorem stock_snoc_ne {id : Nat} (hs : List Happening) {h : Happening} (hne : h.context ≠ id) :
    stock id (hs ++ [h]) = stock id hs := by
  simp [stock, hne]

/-- The disposing callbacks that a sequence has taken and not started. -/
def Flight.left (f : Flight) : List (Callback Action) :=
  match f.sequence.stage with
  | .disposing _ left => left
  | _ => []

/-- The accepting callbacks that a sequence has taken and is going to put back, as its context stands
now. -/
def Flight.kept (f : Flight) (c : Context (Callback Action) Value) : List (Callback Action) :=
  match f.sequence.stage with
  | .accepting _ generation taken _ => if c.generation = generation then taken else []
  | _ => []

def Flight.Behind (f : Flight) (c : Context (Callback Action) Value) : Prop :=
  match f.sequence.stage with
  | .accepting _ generation _ _ => generation ≤ c.generation
  | _ => True

/-- How the stock is shared between a context and the sequence that holds it. -/
structure Shared (s : Stock) (c : Context (Callback Action) Value) (L : List Flight) : Prop where
  disposes : s.disposes = L.flatMap Flight.left ++ c.disposes
  due : s.due = (L.flatMap Flight.left).length
  accepts : s.accepts = L.flatMap (fun f => f.kept c) ++ c.accepts
  held : s.held = (L.flatMap fun f => f.kept c).length
  behind : ∀ f ∈ L, f.Behind c

/-- The stock is that of a context, if there is one. -/
def Stocked (id : Nat) (s : Stock) (σ : Scene) : Prop :=
  ∀ c, σ.registry.context? id = some c → Shared s c (flightsOf σ.flights id)

section

variable {c d : Context (Callback Action) Value} {f : Flight} {s s' : Stock} {L : List Flight}

theorem Flight.kept_congr (hg : d.generation = c.generation) : f.kept d = f.kept c := by
  rw [kept, kept, hg]

theorem Flight.behind_congr (hg : d.generation = c.generation) (h : f.Behind c) : f.Behind d := by
  rw [Behind, hg]
  exact h

theorem Flight.kept_handOut (h : f.Behind c) : f.kept c.handOut = [] := by
  rw [kept]
  split
  · rename_i generation taken left hstage
    rw [Behind, hstage] at h
    -- the generation that the sequence remembers is over
    have hnewer : c.generation + 1 ≠ generation := by omega
    exact if_neg hnewer
  · rfl

theorem Flight.behind_handOut (h : f.Behind c) : f.Behind c.handOut := by
  rw [Behind] at h ⊢
  split at h
  · exact Nat.le_succ_of_le h
  · trivial

theorem Shared.quiet (h : Shared s c L) (hd : d.disposes = c.disposes) (ha : d.accepts = c.accepts)
    (hg : d.generation = c.generation) : Shared s d L where
  disposes := hd ▸ h.disposes
  due := h.due
  accepts := by
    rw [h.accepts, ha]
    simp only [Flight.kept_congr hg]
  held := by
    rw [h.held]
    simp only [Flight.kept_congr hg]
  behind := fun f hf => Flight.behind_congr hg (h.behind f hf)

theorem Shared.handedOut (h : Shared s c L) :
    Shared { s with accepts := [], held := 0 } c.handOut L := by
  have hnone : (L.flatMap fun f => f.kept c.handOut) = [] :=
    List.flatMap_eq_nil_iff.mpr fun f hf => Flight.kept_handOut (h.behind f hf)
  refine ⟨h.disposes, h.due, ?_, ?_, fun f hf => Flight.behind_handOut (h.behind f hf)⟩
  · rw [hnone]
    rfl
  · rw [hnone]
    rfl

theorem Shared.acceptAdded (h : Shared s c L) (callback : Callback Action) :
    Shared { s with accepts := s.accepts ++ [callback] }
      { c with accepts := c.accepts ++ [callback] } L :=
  ⟨h.disposes, h.due, by rw [h.accepts, List.append_assoc]; rfl, h.held, h.behind⟩

theorem Shared.disposeAdded (h : Shared s c L) (callback : Callback Action) :
    Shared { s with disposes := s.disposes ++ [callback] }
      { c with disposes := c.disposes ++ [callback] } L :=
  ⟨by rw [h.disposes, List.append_assoc], h.due, h.accepts, h.held, h.behind⟩

theorem Shared.free (h : Shared s c []) : s = ⟨c.disposes, 0, c.accepts, 0⟩ := by
  obtain ⟨hd, hdue, ha, hheld, -⟩ := h
  cases s
  simp_all

theorem Shared.of_free : Shared ⟨c.disposes, 0, c.accepts, 0⟩ c [] :=
  ⟨rfl, rfl, rfl, rfl, by simp⟩

theorem Shared.dropped (h : Shared s c [f]) :
    Shared ⟨s.disposes.drop s.due, 0, s.accepts.drop s.held, 0⟩ c [] := by
  have hd : s.disposes.drop s.due = c.disposes := by
    rw [h.disposes, h.due, List.drop_left]
  have ha : s.accepts.drop s.held = c.accepts := by
    rw [h.accepts, h.held, List.drop_left]
  rw [hd, ha]
  exact .of_free

end

namespace Stocked

variable {id : Nat} {s s' : Stock} {r r' : Contexts} {L M A B : List Flight} {f : Flight}

theorem modified (hv : Stocked id s ⟨r, L⟩)
    {g : Context (Callback Action) Value → Context (Callback Action) Value}
    (h : ∀ c, Shared s c (flightsOf L id) → Shared s' (g c) (flightsOf L id)) :
    Stocked id s' ⟨r.modify id g, L⟩ := by
  intro c' hc'
  rw [Registry.context?_modify] at hc'
  obtain ⟨c, hc, rfl⟩ := Option.map_eq_some_iff.mp hc'
  rw [if_pos rfl]
  exact h c (hv c hc)

theorem advanced (hv : Stocked f.context s ⟨r, A ++ f :: B⟩) (hs' : Sound ⟨r, A ++ f :: B⟩)
    {F : List Flight} (hM : flightsOf M f.context = F)
    (h : ∀ c, r.context? f.context = some c → Shared s c [f] →
      ∃ c', r'.context? f.context = some c' ∧ Shared s' c' F) :
    Stocked f.context s' ⟨r', M⟩ := by
  -- no other sequence shares the stock of the context
  obtain ⟨-, c, hc, -⟩ := hs'.held_once
  have hone := hv c hc
  rw [hs'.flightsOf_self f rfl] at hone
  obtain ⟨c', hc', hshared⟩ := h c hc hone
  intro d hd
  obtain rfl : c' = d := Option.some.inj (hc'.symm.trans hd)
  exact hM ▸ hshared

theorem made {path : String} (hs' : Sound ⟨r, L⟩) (hfind : r.find? path = none) :
    Stocked r.contexts.length {} ⟨(r.create path).2.1, L⟩ := by
  intro c hc
  rw [Registry.context?_create hfind, if_pos rfl] at hc
  obtain rfl := Option.some.inj hc
  have hnone : flightsOf L r.contexts.length = [] := by
    apply flightsOf_eq_nil
    intro hheld
    obtain ⟨c, hc, -⟩ := hs'.held _ hheld
    exact Nat.lt_irrefl _ (Registry.context?_lt hc)
  rw [hnone]
  exact Shared.of_free (c := { path })

theorem granted {path : String} {c : Context (Callback Action) Value} {job : Job Value}
    (hv : Stocked id s ⟨r, A ++ B⟩) (hs' : Sound ⟨r, A ++ B⟩) (hfind : r.find? path = some id)
    (hc : r.context? id = some c) (free : c.busy = false) :
    Stocked id s ⟨r.setBusy id true, A ++ ⟨false, ⟨id, .starting job⟩⟩ :: B⟩ := by
  have hnext : Sound ⟨r.setBusy id true, A ++ ⟨false, ⟨id, .starting job⟩⟩ :: B⟩ :=
    hs'.grant rfl hfind hc free
  have hone := hnext.flightsOf_self ⟨false, ⟨id, .starting job⟩⟩ rfl
  intro c' hc'
  obtain rfl : { c with busy := true } = c' :=
    Option.some.inj ((Registry.context?_modify_self hc _).symm.trans hc')
  have hall := hv c hc
  rw [hs'.flightsOf_of_free hc free] at hall
  obtain rfl := hall.free
  refine Eq.mpr (congrArg (Shared _ _) hone) ?_
  exact ⟨rfl, rfl, rfl, rfl, by simp [Flight.Behind]⟩

theorem begun {job : Job Value} (hv : Stocked id s ⟨r, A ++ ⟨false, ⟨id, .starting job⟩⟩ :: B⟩)
    (hs' : Sound ⟨r, A ++ ⟨false, ⟨id, .starting job⟩⟩ :: B⟩) :
    Stocked id { s with due := s.disposes.length } ⟨r.modify id fun c => { c with disposes := [] },
      A ++ ⟨false, ⟨id, .disposing job (((r.context? id).map Context.disposes).getD [])⟩⟩ :: B⟩ := by
  refine hv.advanced hs' (hs'.flightsOf_self _ rfl) fun c hc h => ?_
  refine ⟨_, Registry.context?_modify_self hc _, ?_⟩
  have htaken : r.context? id = some c := hc
  have hd : s.disposes = c.disposes := h.disposes
  exact ⟨by simp [Flight.left, htaken, hd], by simp [Flight.left, htaken, hd], h.accepts, h.held,
    by simp [Flight.Behind]⟩

theorem calledDispose {job : Job Value} {callback : Callback Action} {left : List (Callback Action)}
    (hv : Stocked id s ⟨r, A ++ ⟨false, ⟨id, .disposing job (callback :: left)⟩⟩ :: B⟩)
    (hs' : Sound ⟨r, A ++ ⟨false, ⟨id, .disposing job (callback :: left)⟩⟩ :: B⟩) :
    Stocked id { s with disposes := s.disposes.tail, due := s.due - 1 }
      ⟨r, A ++ ⟨true, ⟨id, .disposing job left⟩⟩ :: B⟩ := by
  refine hv.advanced hs' (hs'.flightsOf_self _ rfl) fun c hc h => ⟨c, hc, ?_⟩
  refine ⟨?_, ?_, h.accepts, h.held, by simp [Flight.Behind]⟩
  · rw [h.disposes]
    simp [Flight.left]
  · rw [h.due]
    simp [Flight.left]

theorem turned {module : Option Value}
    (hv : Stocked id s ⟨r, A ++ ⟨false, ⟨id, .disposing (.update module) []⟩⟩ :: B⟩)
    (hs' : Sound ⟨r, A ++ ⟨false, ⟨id, .disposing (.update module) []⟩⟩ :: B⟩) :
    Stocked id { s with held := s.accepts.length } ⟨r.modify id fun c => { c with accepts := [] },
      A ++ ⟨false, ⟨id, .accepting module (((r.context? id).map Context.generation).getD 0)
        (((r.context? id).map Context.accepts).getD [])
        (((r.context? id).map Context.accepts).getD [])⟩⟩ :: B⟩ := by
  refine hv.advanced hs' (hs'.flightsOf_self _ rfl) fun c hc h => ?_
  refine ⟨_, Registry.context?_modify_self hc _, ?_⟩
  have htaken : r.context? id = some c := hc
  have ha : s.accepts = c.accepts := h.accepts
  exact ⟨h.disposes, h.due, by simp [Flight.kept, htaken, ha], by simp [Flight.kept, htaken, ha],
    by simp [Flight.Behind, htaken]⟩

theorem continued {g : Flight} (hv : Stocked f.context s ⟨r, A ++ f :: B⟩)
    (hs' : Sound ⟨r, A ++ f :: B⟩) (hg : g.context = f.context) (hleft : g.left = f.left)
    (hkept : ∀ c, g.kept c = f.kept c) (hbehind : ∀ c, f.Behind c → g.Behind c) :
    Stocked f.context s ⟨r, A ++ g :: B⟩ := by
  refine hv.advanced hs' (hs'.flightsOf_self g hg) fun c hc h => ⟨c, hc, ?_⟩
  refine ⟨?_, ?_, ?_, ?_, ?_⟩
  · simpa [hleft] using h.disposes
  · simpa [hleft] using h.due
  · simpa [hkept] using h.accepts
  · simpa [hkept] using h.held
  · simpa using hbehind c (h.behind f (by simp))

theorem putBack {run : Running} {module : Option Value} {generation : Nat}
    {taken : List (Callback Action)} (hs' : Sound ⟨r, A ++ ⟨false, run⟩ :: B⟩)
    (hstage : run.stage = .accepting module generation taken [])
    {c : Context (Callback Action) Value} (hc : r.context? run.context = some c)
    (h : Shared s c [⟨false, run⟩]) :
    ∃ c', (run.putBack r (run.path r) generation taken).context? run.context = some c' ∧
      Shared { s with held := 0 } c' [] := by
  refine ⟨_, hs'.putBack_context? hc generation taken, ?_⟩
  have hd : s.disposes = c.disposes := by simpa [Flight.left, hstage] using h.disposes
  have hdue : s.due = 0 := by simpa [Flight.left, hstage] using h.due
  have ha : s.accepts = (if c.generation = generation then taken else []) ++ c.accepts := by
    simpa [Flight.kept, hstage] using h.accepts
  refine ⟨?_, hdue, ?_, rfl, by simp⟩
  · split <;> exact hd
  · split <;> simp_all

theorem pruned {run : Running} (hv : Stocked run.context s ⟨r, A ++ ⟨false, run⟩ :: B⟩)
    (hs' : Sound ⟨r, A ++ ⟨false, run⟩ :: B⟩) (hstage : run.stage = .disposing .prune []) :
    Stocked run.context { s with held := 0 }
      ⟨run.release ((r.unregister (run.path r) run.context).modify run.context
        fun c => { c with queue := [] }), A ++ B⟩ := by
  refine hv.advanced hs' hs'.flightsOf_left fun c hc h => ?_
  refine ⟨{ c with queue := [], busy := false }, ?_, ?_⟩
  · have hc₁ : (r.unregister (run.path r) run.context).context? run.context = some c := hc
    exact Registry.context?_modify_self (Registry.context?_modify_self hc₁ _) _
  · have hd : s.disposes = c.disposes := by simpa [Flight.left, hstage] using h.disposes
    have hdue : s.due = 0 := by simpa [Flight.left, hstage] using h.due
    have ha : s.accepts = c.accepts := by simpa [Flight.kept, hstage] using h.accepts
    exact ⟨hd, hdue, ha, rfl, by simp⟩

theorem resumed {run : Running} {module : Option Value} {generation : Nat}
    {taken : List (Callback Action)} {job : Job Value} {rest : List (Job Value)}
    (hv : Stocked run.context s ⟨r, A ++ ⟨false, run⟩ :: B⟩)
    (hs' : Sound ⟨r, A ++ ⟨false, run⟩ :: B⟩)
    (hstage : run.stage = .accepting module generation taken []) :
    Stocked run.context { s with held := 0 }
      ⟨(run.putBack r (run.path r) generation taken).modify run.context
        fun c => { c with queue := rest }, A ++ ⟨false, ⟨run.context, .starting job⟩⟩ :: B⟩ := by
  refine hv.advanced hs' (hs'.flightsOf_self _ rfl) fun c hc h => ?_
  obtain ⟨c', hc', hfree⟩ := putBack hs' hstage hc h
  refine ⟨_, Registry.context?_modify_self hc' _, ?_⟩
  exact ⟨hfree.disposes, hfree.due, hfree.accepts, rfl, by simp [Flight.Behind]⟩

theorem finished {run : Running} {module : Option Value} {generation : Nat}
    {taken : List (Callback Action)} (hv : Stocked run.context s ⟨r, A ++ ⟨false, run⟩ :: B⟩)
    (hs' : Sound ⟨r, A ++ ⟨false, run⟩ :: B⟩)
    (hstage : run.stage = .accepting module generation taken []) :
    Stocked run.context { s with held := 0 }
      ⟨run.release (run.putBack r (run.path r) generation taken), A ++ B⟩ := by
  refine hv.advanced hs' hs'.flightsOf_left fun c hc h => ?_
  obtain ⟨c', hc', hfree⟩ := putBack hs' hstage hc h
  exact ⟨_, Registry.context?_modify_self hc' _, hfree.quiet rfl rfl rfl⟩

theorem dropped (hv : Stocked f.context s ⟨r, A ++ f :: B⟩) (hs' : Sound ⟨r, A ++ f :: B⟩) :
    Stocked f.context ⟨s.disposes.drop s.due, 0, s.accepts.drop s.held, 0⟩
      ⟨f.sequence.release r, A ++ B⟩ := by
  refine hv.advanced hs' hs'.flightsOf_left fun c hc h => ?_
  exact ⟨_, Registry.context?_modify_self hc _, h.dropped.quiet rfl rfl rfl⟩

end Stocked

theorem Change.stocked_self {σ τ : Scene} {h : Happening} {s : Stock} (hc : Change σ h τ)
    (hs' : Sound σ) (hv : Stocked h.context s σ) : Stocked h.context (s.note h) τ := by
  cases hc with
  | made path hf => exact Stocked.made hs' hf
  | reused hf => exact hv.modified fun _ h => h.handedOut
  | accepts id callback => exact hv.modified fun _ h => h.acceptAdded callback
  | disposes id callback => exact hv.modified fun _ h => h.disposeAdded callback
  | marked id => exact hv.modified fun _ h => h.quiet rfl rfl rfl
  | wrote id f => exact hv.modified fun _ h => h.quiet rfl rfl rfl
  | queued job hf busy => exact hv.modified fun _ h => h.quiet rfl rfl rfl
  | granted job hf hctx free => exact hv.granted hs' hf hctx free
  | begun id job => exact hv.begun hs'
  | calledDispose id job callback left => exact hv.calledDispose hs'
  | turned id module => exact hv.turned hs'
  | calledAccept id module generation taken callback left =>
    exact hv.continued hs' rfl rfl (fun _ => rfl) fun _ h => h
  | returned run => exact hv.continued hs' rfl rfl (fun _ => rfl) fun _ h => h
  | pruned run hstage => exact hv.pruned hs' hstage
  | resumed run hstage hq => exact hv.resumed hs' hstage
  | finished run hstage hq => exact hv.finished hs' hstage
  | dropped f => exact hv.dropped hs'

theorem Change.stocked {σ τ : Scene} {h : Happening} {hs : List Happening} (id : Nat)
    (hc : Change σ h τ) (hs' : Sound σ) (hv : Stocked id (stock id hs) σ) :
    Stocked id (stock id (hs ++ [h])) τ := by
  by_cases hid : h.context = id
  · subst hid
    rw [stock_snoc_self]
    exact hc.stocked_self hs' hv
  · have hagree := hc.agree hs' hid
    rw [stock_snoc_ne hs hid]
    intro c hctx
    rw [hagree.flights]
    exact hv c (hagree.context ▸ hctx)

theorem Changes.stocked {σ τ : Scene} {hs : List Happening} (id : Nat) (hc : Changes σ hs τ)
    (h : Sound σ) (hv : Stocked id {} σ) : Stocked id (stock id hs) τ := by
  induction hc with
  | refl => exact hv
  | next hfirst hlast ih => exact hlast.stocked id (hfirst.sound h) ih

/-- While nothing is dropped, the stock is all that was registered and is not used up. -/
theorem Followed.stock {σ : Scene} {id : Nat} {a : Account} {s : Stock} (hv : Followed id a σ)
    (hstock : Stocked id s σ) {c : Context (Callback Action) Value}
    (hc : σ.registry.context? id = some c) :
    a.registered = a.disposed ++ s.disposes ∧ a.accepts = s.accepts := by
  have hshared := hstock c hc
  have same : ∀ {d}, σ.registry.context? id = some d → d = c :=
    fun hd => Option.some.inj (hd.symm.trans hc)
  cases hv with
  | unknown hnone => exact absurd (hnone.symm.trans hc) (by simp)
  | resting hctx hflight hdisposes hregistered haccepts hcourses =>
    obtain rfl := same hctx
    rcases hflight with hflight | ⟨job, hflight⟩
    · rw [hflight] at hshared
      obtain rfl := hshared.free
      exact ⟨hdisposes ▸ hregistered, haccepts.symm⟩
    · rw [hflight] at hshared
      rw [hshared.disposes, hshared.accepts]
      exact ⟨by simpa [Flight.left, hdisposes] using hregistered, haccepts.symm⟩
  | disposing course older calling job left hctx hflight hdisposes hregistered haccepts =>
    obtain rfl := same hctx
    rw [hflight] at hshared
    rw [hshared.disposes, hshared.accepts]
    refine ⟨?_, haccepts.symm⟩
    simpa [Flight.left, hdisposes] using hregistered
  | accepting course older calling module generation taken left hctx hflight hdisposes hregistered
      hreached haccepts =>
    obtain rfl := same hctx
    rw [hflight] at hshared
    rw [hshared.disposes, hshared.accepts]
    refine ⟨by simpa [Flight.left, hdisposes] using hregistered, ?_⟩
    rw [haccepts]
    simp only [List.flatMap_singleton, Flight.kept]
    split <;> rfl

namespace World

theorem run_stocked (modules : List (String × List Action)) (turns : List Turn) (id : Nat) :
    Stocked id (stock id ((initial modules).history turns))
      ((initial modules).after turns).scene :=
  (run_changes modules turns).stocked id .empty (by simp [Stocked, Registry.context?])

/-- A sequence that is dropped with its task is gone with what it has taken: the disposing callbacks
that it had still to start, and the accepting ones unless its context has been handed out since. Its
context, which stays registered, has the rest of the stock, in order. As long as nothing was dropped
before, the stock is all that was registered to dispose and not started and all that was registered to
accept since the context was last handed out. -/
theorem drop_loses_taken (modules : List (String × List Action)) (turns : List Turn) (t : Nat)
    {f : Flight} (hf : f ∈ flightsIn false ((((initial modules).after turns).tasks[t]?).getD [])) :
    let w := (initial modules).after turns
    let w' := (w.cancel t).1
    let id := f.context
    let s := stock id ((initial modules).history turns)
    let a := account id ((initial modules).history turns)
    ∃ c, w.registry.context? id = some c ∧
      w'.registry.context? id = some { c with busy := false } ∧
      w'.registry.find? c.path = some id ∧
      s.disposes = f.left ++ c.disposes ∧ s.accepts = f.kept c ++ c.accepts ∧
      ((initial modules).Undropped turns →
        a.registered = a.disposed ++ s.disposes ∧ a.accepts = s.accepts) := by
  intro w w' id s a
  obtain ⟨c, hc, hfind, hc'⟩ := cancel_context hf
  have hstock : Stocked id s w.scene := run_stocked modules turns id
  have hone : flightsOf w.flights id = [f] := by
    obtain ⟨A, B, hsplit⟩ := List.append_of_mem (mem_flights hf)
    have hsound : Sound ⟨w.registry, A ++ f :: B⟩ := hsplit ▸ run_sound modules turns
    rw [hsplit]
    exact hsound.flightsOf_self f rfl
  have hshared : Shared s c [f] := hone ▸ hstock c hc
  refine ⟨c, hc, hc', ?_, ?_, ?_, fun hdrop => ?_⟩
  · rw [cancel_registry, releaseAll_find?]
    exact hfind
  · simpa using hshared.disposes
  · simpa using hshared.accepts
  · exact (run_followed modules turns id hdrop).stock hstock hc

/-- One update is held up by the first of two callbacks that dispose, another by the callback that
accepts. -/
def updatesHeldUp : List Turn :=
  [Turn.operate (.effect (.create "/p" (some "p"))),
    .operate (.effect (.dispose "p" { steps := [.wait "g"] })),
    .operate (.effect (.dispose "p" { atOnce := [.effect (.note "second")] })),
    .operate (.effect (.accept "p" { atOnce := [.effect .showModule] })),
    .operate (.effect (.create "/q" (some "q"))),
    .operate (.effect (.accept "q" { steps := [.wait "g"] })),
    .operate (.start (.apply "/p" none)), .operate (.start (.apply "/q" none))] ++
    List.replicate 3 (Turn.step 0) ++ List.replicate 4 (Turn.step 1)

theorem drop_loses_taken_disposing :
    ⟨true, ⟨0, .disposing (.update none) [{ atOnce := [.effect (.note "second")] }]⟩⟩ ∈
      flightsIn false ((((initial []).after updatesHeldUp).tasks[0]?).getD []) ∧
    (account 0 ((initial []).history updatesHeldUp)).registered =
      (account 0 ((initial []).history updatesHeldUp)).disposed ++
        [{ atOnce := [.effect (.note "second")] }] ∧
    (((initial []).after updatesHeldUp).cancel 0).1.registry.find? "/p" = some 0 ∧
    ((((initial []).after updatesHeldUp).cancel 0).1.registry.context? 0).map
      Context.disposes = some [] := by
  have hf : ⟨true, ⟨0, .disposing (.update none) [{ atOnce := [.effect (.note "second")] }]⟩⟩ ∈
      flightsIn false ((((initial []).after updatesHeldUp).tasks[0]?).getD []) :=
    List.mem_singleton_self _
  have hundropped : (initial []).Undropped updatesHeldUp :=
    undropped_of_uncancelled _ _ (by simp [updatesHeldUp])
  obtain ⟨c, hc, hc', hfind, hdisposes, -, haccount⟩ := drop_loses_taken [] updatesHeldUp 0 hf
  have hpath : c.path = "/p" := Option.some.inj (congrArg (Option.map Context.path) hc).symm
  have hnone : c.disposes = [] := Option.some.inj (congrArg (Option.map Context.disposes) hc).symm
  obtain ⟨hregistered, -⟩ := haccount hundropped
  rw [hdisposes, hnone] at hregistered
  refine ⟨hf, hregistered, hpath ▸ hfind, ?_⟩
  exact (congrArg (Option.map Context.disposes) hc').trans (congrArg some hnone)

/-- When both are dropped, a callback that was never started is not pending any more, and one that
was registered to accept is not registered any more. -/
theorem callbacks_lost :
    let hs := (initial []).history (updatesHeldUp ++ [.operate (.cancel 0), .operate (.cancel 1)])
    let r :=
      ((initial []).after (updatesHeldUp ++ [.operate (.cancel 0), .operate (.cancel 1)])).registry
    r.find? "/p" = some 0 ∧ r.find? "/q" = some 1 ∧
    (account 0 hs).registered =
      [{ steps := [.wait "g"] }, { atOnce := [.effect (.note "second")] }] ∧
    (account 0 hs).disposed = [{ steps := [.wait "g"] }] ∧
    (r.context? 0).map Context.disposes = some [] ∧
    (account 1 hs).accepts = [{ steps := [.wait "g"] }] ∧
    (r.context? 1).map Context.accepts = some [] :=
  ⟨rfl, rfl, rfl, rfl, rfl, rfl, rfl⟩

end World

end ModuleHost.Hot
