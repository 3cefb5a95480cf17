import ModuleHost.Proofs.Hot.Renewal

/-! Where callbacks come from and when there is an end to them. A sequence only calls what was
registered on its own context, and when a prune has been executed nothing but old handles reaches
the context any more. -/

namespace ModuleHost.Hot

open ModuleHost.Json

def Context.callbacks (c : Context (Callback Action) Value) : Phase → List (Callback Action)
  | .dispose => c.disposes
  | .accept => c.accepts

def Sequence.callbacks (s : Running) (phase : Phase) : List (Callback Action) :=
  match s.stage, phase with
  | .disposing _ left, .dispose => left
  | .accepting _ _ taken left, .accept => taken ++ left
  | _, _ => []

/-- The registration of a callback. -/
def Happening.registers (id : Nat) (callback : Callback Action) : Phase → Happening
  | .dispose => .disposes id callback
  | .accept => .accepts id callback

def Listed (r : Contexts) (id : Nat) (phase : Phase) (callback : Callback Action) : Prop :=
  ∃ c, r.context? id = some c ∧ callback ∈ c.callbacks phase

def Taken (flights : List Flight) (id : Nat) (phase : Phase) (callback : Callback Action) : Prop :=
  ∃ f ∈ flights, f.context = id ∧ callback ∈ f.sequence.callbacks phase

/-- A callback that a context or one of its sequences may still call. -/
def Kept (σ : Scene) (id : Nat) (phase : Phase) (callback : Callback Action) : Prop :=
  Listed σ.registry id phase callback ∨ Taken σ.flights id phase callback

section

variable {r : Contexts} {L A B : List Flight} {f g : Flight} {id j : Nat} {phase : Phase}
  {callback : Callback Action} {σ τ υ : Scene} {h : Happening} {hs : List Happening}

theorem Listed.modify
    {change : Context (Callback Action) Value → Context (Callback Action) Value}
    (hl : Listed (r.modify j change) id phase callback) : Listed r id phase callback ∨
      j = id ∧ ∃ c, r.context? id = some c ∧ callback ∈ (change c).callbacks phase := by
  obtain ⟨c', hc', hmem⟩ := hl
  rw [Registry.context?_modify] at hc'
  obtain ⟨c, hc, rfl⟩ := Option.map_eq_some_iff.mp hc'
  split at hmem
  · exact .inr ⟨‹_›, c, hc, hmem⟩
  · exact .inl ⟨c, hc, hmem⟩

theorem Listed.unchanged
    {change : Context (Callback Action) Value → Context (Callback Action) Value}
    (hl : Listed (r.modify j change) id phase callback)
    (hsub : ∀ c phase, (change c).callbacks phase ⊆ c.callbacks phase) :
    Listed r id phase callback := by
  rcases hl.modify with hold | ⟨-, c, hc, hmem⟩
  · exact hold
  · exact ⟨c, hc, hsub c phase hmem⟩

theorem Taken.middle (ht : Taken (A ++ f :: B) id phase callback) :
    Taken (A ++ B) id phase callback ∨
      f.context = id ∧ callback ∈ f.sequence.callbacks phase := by
  obtain ⟨g, hg, hctx, hmem⟩ := ht
  simp only [List.mem_append, List.mem_cons] at hg
  rcases hg with hg | rfl | hg
  · exact .inl ⟨g, List.mem_append_left _ hg, hctx, hmem⟩
  · exact .inr ⟨hctx, hmem⟩
  · exact .inl ⟨g, List.mem_append_right _ hg, hctx, hmem⟩

theorem Taken.more (ht : Taken (A ++ B) id phase callback) :
    Taken (A ++ f :: B) id phase callback := by
  obtain ⟨g, hg, hctx, hmem⟩ := ht
  refine ⟨g, ?_, hctx, hmem⟩
  rcases List.mem_append.mp hg with hg | hg
  · exact List.mem_append_left _ hg
  · exact List.mem_append_right _ (List.mem_cons_of_mem _ hg)

theorem Taken.replaced (ht : Taken (A ++ g :: B) id phase callback) (hctx : g.context = f.context)
    (hsub : ∀ phase, g.sequence.callbacks phase ⊆ f.sequence.callbacks phase) :
    Taken (A ++ f :: B) id phase callback := by
  rcases ht.middle with hother | ⟨hid, hmem⟩
  · exact hother.more
  · exact ⟨f, by simp, hctx.symm.trans hid, hsub phase hmem⟩

theorem Kept.modified
    {change : Context (Callback Action) Value → Context (Callback Action) Value}
    (hk : Kept ⟨r.modify j change, L⟩ id phase callback)
    (hsub : ∀ c phase, (change c).callbacks phase ⊆ c.callbacks phase) :
    Kept ⟨r, L⟩ id phase callback :=
  hk.imp_left (·.unchanged hsub)

theorem Kept.released {s : Running} (hk : Kept ⟨s.release r, A ++ B⟩ id phase callback) :
    Kept ⟨r, A ++ f :: B⟩ id phase callback :=
  hk.imp (fun hl => hl.unchanged fun _ _ _ hmem => hmem) Taken.more

theorem Listed.putBack {s : Running} {path : String} {module : Option Value} {generation : Nat}
    {taken left : List (Callback Action)}
    (hstage : s.stage = .accepting module generation taken left)
    (hl : Listed (s.putBack r path generation taken) id phase callback) :
    Kept ⟨r, A ++ ⟨false, s⟩ :: B⟩ id phase callback := by
  unfold Sequence.putBack at hl
  split at hl
  · rcases hl.modify with hold | ⟨rfl, c, hc, hmem⟩
    · exact .inl hold
    · split at hmem
      · cases phase with
        | dispose => exact .inl ⟨c, hc, hmem⟩
        | accept =>
          rcases List.mem_append.mp hmem with hback | hmeanwhile
          · refine .inr ⟨⟨false, s⟩, by simp, rfl, ?_⟩
            simpa [Sequence.callbacks, hstage] using .inl hback
          · exact .inl ⟨c, hc, hmeanwhile⟩
      · exact .inl ⟨c, hc, hmem⟩
  · exact .inl hl

theorem Kept.added (kind : Phase) {new : Callback Action}
    {change : Context (Callback Action) Value → Context (Callback Action) Value}
    (hk : Kept ⟨r.modify j change, L⟩ id phase callback)
    (hadd : ∀ c phase, callback ∈ (change c).callbacks phase →
      callback ∈ c.callbacks phase ∨ phase = kind ∧ callback = new) :
    Kept ⟨r, L⟩ id phase callback ∨
      Happening.registers j new kind = .registers id callback phase := by
  rcases hk with hl | ht
  · rcases hl.modify with hold | ⟨rfl, c, hc, hmem⟩
    · exact .inl (.inl hold)
    · rcases hadd c phase hmem with hbefore | ⟨rfl, rfl⟩
      · exact .inl (.inl ⟨c, hc, hbefore⟩)
      · exact .inr rfl
  · exact .inl (.inr ht)

theorem Kept.took {change : Context (Callback Action) Value → Context (Callback Action) Value}
    (hk : Kept ⟨r.modify j change, A ++ g :: B⟩ id phase callback)
    (hsub : ∀ c phase, (change c).callbacks phase ⊆ c.callbacks phase) (hctx : g.context = j)
    (htook : ∀ phase callback, callback ∈ g.sequence.callbacks phase →
      Listed r j phase callback) : Kept ⟨r, A ++ f :: B⟩ id phase callback := by
  rcases hk with hl | ht
  · exact .inl (hl.unchanged hsub)
  · rcases ht.middle with hold | ⟨hid, hmem⟩
    · exact .inr hold.more
    · obtain rfl : j = id := hctx.symm.trans hid
      exact .inl (htook phase callback hmem)

theorem mem_getD_map {f : Context (Callback Action) Value → List (Callback Action)}
    (hmem : callback ∈ ((r.context? id).map f).getD []) :
    ∃ c, r.context? id = some c ∧ callback ∈ f c := by
  cases hc : r.context? id with
  | none => simp [hc] at hmem
  | some c => exact ⟨c, rfl, by simpa [hc] using hmem⟩

theorem Change.kept (hc : Change σ h τ) (hk : Kept τ id phase callback) :
    Kept σ id phase callback ∨ h = .registers id callback phase := by
  cases hc with
  | made path hf =>
    refine .inl (hk.imp_left ?_)
    rintro ⟨c, hc, hmem⟩
    rw [Registry.context?_create hf] at hc
    split at hc
    · obtain rfl := Option.some.inj hc
      cases phase <;> cases hmem
    · exact ⟨c, hc, hmem⟩
  | reused hf =>
    refine .inl (hk.modified fun c phase => ?_)
    cases phase <;> simp [Context.callbacks, Context.handOut]
  | accepts j new =>
    refine Kept.added .accept hk fun c phase hmem => ?_
    cases phase with
    | dispose => exact .inl hmem
    | accept => exact (List.mem_append.mp hmem).imp_right fun hnew => ⟨rfl, by simpa using hnew⟩
  | disposes j new =>
    refine Kept.added .dispose hk fun c phase hmem => ?_
    cases phase with
    | accept => exact .inl hmem
    | dispose => exact (List.mem_append.mp hmem).imp_right fun hnew => ⟨rfl, by simpa using hnew⟩
  | marked j => exact .inl (hk.modified fun _ _ _ hmem => hmem)
  | wrote j f => exact .inl (hk.modified fun _ _ _ hmem => hmem)
  | queued job hf busy => exact .inl (hk.modified fun _ _ _ hmem => hmem)
  | granted job hf hctx free =>
    have hbefore := Kept.modified hk fun _ _ _ hmem => hmem
    rcases hbefore with hl | ht
    · exact .inl (.inl hl)
    · rcases ht.middle with hold | ⟨-, hmem⟩
      · exact .inl (.inr hold)
      · simp [Sequence.callbacks] at hmem
  | @begun r A B j job =>
    refine .inl (hk.took (fun c phase => ?_) rfl fun phase callback hmem => ?_)
    · cases phase <;> simp [Context.callbacks]
    · cases phase with
      | accept => simp [Sequence.callbacks] at hmem
      | dispose => exact mem_getD_map (f := Context.disposes) hmem
  | calledDispose j job first left =>
    refine .inl (hk.imp_right fun ht => ht.replaced rfl fun phase => ?_)
    cases phase <;> simp [Sequence.callbacks]
  | @turned r A B j module =>
    refine .inl (hk.took (fun c phase => ?_) rfl fun phase callback hmem => ?_)
    · cases phase <;> simp [Context.callbacks]
    · cases phase with
      | dispose => simp [Sequence.callbacks] at hmem
      | accept =>
        refine mem_getD_map (f := Context.accepts) ?_
        simpa [Sequence.callbacks] using hmem
  | calledAccept j module generation taken first left =>
    refine .inl (hk.imp_right fun ht => ht.replaced rfl fun phase => ?_)
    cases phase <;> simp [Sequence.callbacks]
  | returned s => exact .inl (hk.imp_right fun ht => ht.replaced rfl fun _ _ hmem => hmem)
  | @pruned r A B s hstage =>
    have hbefore : Kept ⟨r.unregister (s.path r) s.context, A ++ ⟨false, s⟩ :: B⟩ id phase
        callback := Kept.modified hk.released fun _ _ _ hmem => hmem
    exact .inl hbefore
  | resumed s hstage hq =>
    rcases hk with hl | ht
    · exact .inl ((hl.unchanged fun _ _ _ hmem => hmem).putBack hstage)
    · refine .inl (.inr (ht.replaced rfl fun phase => ?_))
      simp [Sequence.callbacks]
  | finished s hstage hq =>
    rcases hk with hl | ht
    · exact .inl ((hl.unchanged fun _ _ _ hmem => hmem).putBack hstage)
    · exact .inl (.inr ht.more)
  | dropped f => exact .inl hk.released

theorem Changes.kept (hc : Changes σ hs τ) (hk : Kept τ id phase callback) :
    Kept σ id phase callback ∨ .registers id callback phase ∈ hs := by
  induction hc with
  | refl => exact .inl hk
  | next _ hlast ih =>
    rcases hlast.kept hk with hbefore | rfl
    · exact (ih hbefore).imp_right (List.mem_append_left _)
    · exact .inr (by simp)

theorem Change.called_kept {module : Option Value}
    (hc : Change σ (.called id phase callback module) τ) : Kept σ id phase callback := by
  cases hc with
  | calledDispose id job callback left =>
    refine .inr ⟨⟨false, ⟨id, .disposing job (callback :: left)⟩⟩, by simp, rfl, ?_⟩
    exact List.mem_cons_self
  | calledAccept id module generation taken callback left =>
    refine .inr ⟨⟨false, ⟨id, .accepting module generation taken (callback :: left)⟩⟩,
      by simp, rfl, ?_⟩
    exact List.mem_append_right _ List.mem_cons_self

theorem Changes.middle {as bs : List Happening} (hc : Changes σ hs υ) (heq : hs = as ++ h :: bs) :
    ∃ τ τ', Changes σ as τ ∧ Change τ h τ' ∧ Changes τ' bs υ := by
  induction hc generalizing bs with
  | refl => simp at heq
  | @next hs τ υ k hfirst hlast ih =>
    cases bs using List.reverseRecOn with
    | nil =>
      obtain ⟨rfl, hk⟩ := List.append_inj' heq rfl
      obtain rfl := List.singleton_inj.mp hk
      exact ⟨τ, υ, hfirst, hlast, .refl⟩
    | append_singleton bs k' =>
      rw [← List.cons_append, ← List.append_assoc] at heq
      obtain ⟨hinit, hk⟩ := List.append_inj' heq rfl
      obtain rfl := List.singleton_inj.mp hk
      obtain ⟨τ₁, τ₂, hbefore, hthen, hafter⟩ := ih hinit
      exact ⟨τ₁, τ₂, hbefore, hthen, .next hafter hlast⟩

/-- What code that has a handle does to a context. -/
def Happening.byHandle : Happening → Bool
  | .accepts .. | .disposes .. | .marked _ | .wrote _ => true
  | _ => false

theorem Change.registered (hc : Change σ h τ) (hs' : Sound σ)
    (hid : ∃ c, σ.registry.context? h.context = some c) (hhandle : h.byHandle = false) :
    Registered σ.registry h.context := by
  have held : ∀ f ∈ σ.flights, Registered σ.registry f.context := fun f hf => by
    obtain ⟨c, -, hfind⟩ := hs'.held f.context (List.mem_map_of_mem hf)
    exact ⟨c.path, hfind⟩
  cases hc with
  | made path hf =>
    obtain ⟨c, hctx⟩ := hid
    exact absurd (Registry.context?_lt hctx) (Nat.lt_irrefl _)
  | reused hf => exact ⟨_, hf⟩
  | queued job hf busy => exact ⟨_, hf⟩
  | granted job hf hctx free => exact ⟨_, hf⟩
  | begun id job => exact held ⟨false, ⟨id, .starting job⟩⟩ (by simp)
  | calledDispose id job callback left =>
    exact held ⟨false, ⟨id, .disposing job (callback :: left)⟩⟩ (by simp)
  | turned id module => exact held ⟨false, ⟨id, .disposing (.update module) []⟩⟩ (by simp)
  | calledAccept id module generation taken callback left =>
    exact held ⟨false, ⟨id, .accepting module generation taken (callback :: left)⟩⟩ (by simp)
  | returned s => exact held ⟨true, s⟩ (by simp)
  | pruned s hstage => exact held ⟨false, s⟩ (by simp)
  | resumed s hstage hq => exact held ⟨false, s⟩ (by simp)
  | finished s hstage hq => exact held ⟨false, s⟩ (by simp)
  | dropped f => exact held f (by simp)
  | _ => cases hhandle

/-- Once forgotten, a context is only reached by handles. -/
theorem Changes.byHandle (hc : Changes σ hs τ) (hs' : Sound σ)
    (hid : ∃ c, σ.registry.context? id = some c) (hout : ¬Registered σ.registry id) :
    ¬Registered τ.registry id ∧ ∀ h ∈ hs, h.context = id → h.byHandle = true := by
  induction hc with
  | refl => exact ⟨hout, by simp⟩
  | @next hs τ υ h hfirst hlast ih =>
    obtain ⟨hstill, hbefore⟩ := ih
    have hsound := hfirst.sound hs'
    obtain ⟨c, hctx⟩ := hid
    obtain ⟨d, hd, -⟩ := hfirst.context_kept hs' ⟨c, hctx, rfl⟩
    refine ⟨hlast.stays_forgotten hsound ⟨d, hd⟩ hstill, fun k hk hkid => ?_⟩
    rcases List.mem_append.mp hk with hold | hnow
    · exact hbefore k hold hkid
    · obtain rfl := List.mem_singleton.mp hnow
      subst hkid
      by_contra hnot
      exact hstill (hlast.registered hsound ⟨d, hd⟩ (by simpa using hnot))

end

namespace World

/-- A callback that is called was registered before, for this phase and on the same context. -/
theorem called_registered (modules : List (String × List Action)) (turns : List Turn) {id : Nat}
    {phase : Phase} {callback : Callback Action} {module : Option Value}
    {earlier later : List Happening} (h : (initial modules).history turns =
      earlier ++ .called id phase callback module :: later) :
    .registers id callback phase ∈ earlier := by
  obtain ⟨τ, τ', hbefore, hcall, -⟩ := (run_changes modules turns).middle h
  rcases hbefore.kept hcall.called_kept with (⟨c, hc, -⟩ | ⟨f, hf, -⟩) | hregistered
  · simp [Registry.context?] at hc
  · cases hf
  · exact hregistered

/-- Once its prune has been executed, a context is dead. Old handles may still register on it, mark
it and write its data, but no sequence of it is asked for, begins or calls anything, and the
callbacks that others call were registered on these others. -/
theorem pruned_context_dead (modules : List (String × List Action)) (turns : List Turn) (id : Nat)
    (earlier later : List Happening)
    (h : (initial modules).history turns = earlier ++ .ended id .prune :: later) :
    (∀ phase callback module, .called id phase callback module ∉ later) ∧
    (∀ happening ∈ later, happening.context = id → happening.byHandle = true) ∧
    ∀ other phase callback module, ∀ before after : List Happening,
      later = before ++ .called other phase callback module :: after →
      other ≠ id ∧ .registers other callback phase ∈ earlier ++ .ended id .prune :: before := by
  obtain ⟨τ, τ', hbefore, hprune, hafter⟩ := (run_changes modules turns).middle h
  have hsound : Sound τ := hbefore.sound .empty
  obtain ⟨c, hc, -⟩ := hprune.pruned_placed hsound
  obtain ⟨c', hc', -⟩ := hprune.context_kept hsound ⟨c, hc, rfl⟩
  -- the context is out of the registry, so only those who hold a handle reach it
  obtain ⟨-, hhandle⟩ :=
    hafter.byHandle (hprune.sound hsound) ⟨c', hc'⟩ (hprune.forgets hsound).2
  have hsilent : ∀ phase callback module, .called id phase callback module ∉ later := by
    intro phase callback module hmem
    cases hhandle _ hmem rfl
  refine ⟨hsilent, hhandle, fun other phase callback module before after hlater => ⟨?_, ?_⟩⟩
  · rintro rfl
    exact hsilent phase callback module (by simp [hlater])
  · apply called_registered modules turns
    rw [h, hlater, List.append_assoc, List.cons_append]

/-- While the disposing callback of a prune waits, an update is asked for; when the prune is over
the path is created anew, and its old handle registers a callback of each kind. -/
def updatedBehindPrune : List Turn :=
  [.operate (.effect (.create "/p" (some "old"))),
    .operate (.effect (.dispose "old" { steps := [.wait "g"] })),
    .operate (.start (.prune "/p")), .step 0, .step 0, .step 0,
    .operate (.start (.apply "/p" none)), .step 1,
    .operate (.effect (.openGate "g")), .step 0, .step 0, .step 0, .step 0,
    .operate (.effect (.create "/p" (some "new"))), .operate (.effect (.dispose "new" {})),
    .operate (.effect (.dispose "old" {})), .operate (.effect (.accept "old" {})),
    .operate (.start (.apply "/p" none)), .step 2, .step 2, .step 2, .step 2, .step 2, .step 2]

theorem pruned_context_dead_updatedBehindPrune : ∃ earlier later : List Happening,
    (initial []).history updatedBehindPrune = earlier ++ .ended 0 .prune :: later ∧
    .asked 0 (.update none) ∈ earlier ∧ .disposes 0 {} ∈ later ∧ .accepts 0 {} ∈ later ∧
    .called 1 .dispose {} none ∈ later ∧ .ended 1 (.update none) ∈ later ∧
    ∀ phase callback module, .called 0 phase callback module ∉ later := by
  let earlier : List Happening :=
    [.made 0 "/p", .disposes 0 { steps := [.wait "g"] }, .asked 0 .prune, .begun 0 .prune,
      .called 0 .dispose { steps := [.wait "g"] } none, .asked 0 (.update none),
      .returned 0 .dispose]
  let later : List Happening :=
    [.made 1 "/p", .disposes 1 {}, .disposes 0 {}, .accepts 0 {}, .asked 1 (.update none),
      .begun 1 (.update none), .called 1 .dispose {} none, .returned 1 .dispose, .turned 1,
      .ended 1 (.update none)]
  have hhistory : (initial []).history updatedBehindPrune =
      earlier ++ .ended 0 .prune :: later := by cbv
  obtain ⟨hsilent, -, -⟩ := pruned_context_dead [] updatedBehindPrune 0 earlier later hhistory
  exact ⟨earlier, later, hhistory, by simp [earlier], by simp [later], by simp [later],
    by simp [later], by simp [later], hsilent⟩

end World

end ModuleHost.Hot
