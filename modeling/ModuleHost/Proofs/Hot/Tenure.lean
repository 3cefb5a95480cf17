import ModuleHost.Proofs.Hot.Requests
import ModuleHost.Proofs.Hot.Succession

/-! How long a context stays registered: from when it is made until a prune that was asked of it has
ended. A path that is created meanwhile gets the same context again, afterwards another one. -/

namespace ModuleHost.Hot

open ModuleHost.Json

def waiting (r : Contexts) (id : Nat) : List (Job Value) :=
  ((r.context? id).map Context.queue).getD []

/-- A job of a context is running or waits. -/
def Open (σ : Scene) (id : Nat) (job : Job Value) : Prop :=
  (∃ f ∈ σ.flights, f.context = id ∧ f.standing.1 = job) ∨ job ∈ waiting σ.registry id

section

variable {r r' : Contexts} {L A B : List Flight} {f g : Flight} {id j : Nat} {job : Job Value}

theorem mem_waiting : job ∈ waiting r id ↔ ∃ c, r.context? id = some c ∧ job ∈ c.queue := by
  rw [waiting]
  cases r.context? id <;> simp

theorem waiting_modify {change : Context (Callback Action) Value → Context (Callback Action) Value}
    (h : ∀ c, ∀ job ∈ (change c).queue, job ∈ c.queue) :
    ∀ job ∈ waiting (r.modify j change) id, job ∈ waiting r id := by
  intro job hmem
  obtain ⟨c', hc', hjob⟩ := mem_waiting.mp hmem
  rw [Registry.context?_modify] at hc'
  obtain ⟨c, hc, rfl⟩ := Option.map_eq_some_iff.mp hc'
  refine mem_waiting.mpr ⟨c, hc, ?_⟩
  split at hjob
  · exact h c job hjob
  · exact hjob

theorem waiting_release (s : Running) (r : Contexts) :
    ∀ job ∈ waiting (s.release r) id, job ∈ waiting r id :=
  waiting_modify fun _ _ hjob => hjob

theorem waiting_putBack (s : Running) (path : String) (generation : Nat)
    (taken : List (Callback Action)) : waiting (s.putBack r path generation taken) id =
      waiting r id := by
  rw [waiting, putBack_queue, waiting]

theorem Open.same (h : Open ⟨r', L⟩ id job) (hq : ∀ job ∈ waiting r' id, job ∈ waiting r id) :
    Open ⟨r, L⟩ id job :=
  h.imp_right (hq job)

theorem Open.moved (h : Open ⟨r', A ++ g :: B⟩ id job) (hctx : g.context = f.context)
    (hjob : g.standing.1 = f.standing.1) (hq : ∀ job ∈ waiting r' id, job ∈ waiting r id) :
    Open ⟨r, A ++ f :: B⟩ id job := by
  rcases h with ⟨f', hmem, hid, hf'⟩ | hmem
  · rcases List.mem_append.mp hmem with hA | hB
    · exact .inl ⟨f', List.mem_append_left _ hA, hid, hf'⟩
    · rcases List.mem_cons.mp hB with rfl | hB
      · exact .inl ⟨f, by simp, hctx ▸ hid, hjob ▸ hf'⟩
      · exact .inl ⟨f', by simp [hB], hid, hf'⟩
  · exact .inr (hq job hmem)

theorem Open.left (h : Open ⟨r', A ++ B⟩ id job)
    (hq : ∀ job ∈ waiting r' id, job ∈ waiting r id) : Open ⟨r, A ++ f :: B⟩ id job := by
  rcases h with ⟨f', hmem, hf'⟩ | hmem
  · refine .inl ⟨f', ?_, hf'⟩
    rw [List.mem_append] at hmem ⊢
    exact hmem.imp_right (List.mem_cons_of_mem _)
  · exact .inr (hq job hmem)

theorem Open.entered (h : Open ⟨r', A ++ g :: B⟩ id job) :
    (g.context = id ∧ g.standing.1 = job) ∨ Open ⟨r', A ++ B⟩ id job := by
  rcases h with ⟨f', hmem, hid, hf'⟩ | hmem
  · rcases List.mem_append.mp hmem with hA | hB
    · exact .inr (.inl ⟨f', List.mem_append_left _ hA, hid, hf'⟩)
    · rcases List.mem_cons.mp hB with rfl | hB
      · exact .inl ⟨hid, hf'⟩
      · exact .inr (.inl ⟨f', List.mem_append_right _ hB, hid, hf'⟩)
  · exact .inr (.inr hmem)

end

theorem Change.open_before {σ τ : Scene} {h : Happening} {id : Nat} {job : Job Value}
    (hc : Change σ h τ) (hopen : Open τ id job) : Open σ id job ∨ h = .asked id job := by
  cases hc with
  | made path hf =>
    refine .inl (hopen.same fun job hmem => ?_)
    obtain ⟨c, hc, hjob⟩ := mem_waiting.mp hmem
    rw [Registry.context?_create hf] at hc
    split at hc
    · obtain rfl := Option.some.inj hc
      cases hjob
    · exact mem_waiting.mpr ⟨c, hc, hjob⟩
  | reused hf => exact .inl (hopen.same (waiting_modify fun _ _ hjob => hjob))
  | accepts j callback => exact .inl (hopen.same (waiting_modify fun _ _ hjob => hjob))
  | disposes j callback => exact .inl (hopen.same (waiting_modify fun _ _ hjob => hjob))
  | marked j => exact .inl (hopen.same (waiting_modify fun _ _ hjob => hjob))
  | wrote j f => exact .inl (hopen.same (waiting_modify fun _ _ hjob => hjob))
  | @queued r L path j job' hf busy =>
    rcases hopen with hflight | hmem
    · exact .inl (.inl hflight)
    · obtain ⟨c', hc', hjob⟩ := mem_waiting.mp hmem
      rw [Registry.enqueue, Registry.context?_modify] at hc'
      obtain ⟨c, hc, rfl⟩ := Option.map_eq_some_iff.mp hc'
      split at hjob
      · rename_i hid
        subst hid
        rcases List.mem_append.mp hjob with hold | hnew
        · exact .inl (.inr (mem_waiting.mpr ⟨c, hc, hold⟩))
        · exact .inr (by rw [List.mem_singleton.mp hnew])
      · exact .inl (.inr (mem_waiting.mpr ⟨c, hc, hjob⟩))
  | granted job' hf hctx free =>
    rcases hopen.entered with ⟨rfl, rfl⟩ | hopen
    · exact .inr rfl
    · exact .inl (hopen.same (waiting_modify fun _ _ hjob => hjob))
  | begun j job' => exact .inl (hopen.moved rfl rfl (waiting_modify fun _ _ hjob => hjob))
  | calledDispose j job' callback left => exact .inl (hopen.moved rfl rfl fun _ hjob => hjob)
  | turned j module => exact .inl (hopen.moved rfl rfl (waiting_modify fun _ _ hjob => hjob))
  | calledAccept j module generation taken callback left =>
    exact .inl (hopen.moved rfl rfl fun _ hjob => hjob)
  | returned s => exact .inl (hopen.moved rfl rfl fun _ hjob => hjob)
  | pruned s hstage =>
    refine .inl (hopen.left fun job hmem => ?_)
    have hout := waiting_modify (by simp) job (waiting_release s _ job hmem)
    exact hout
  | @resumed r A B s module generation taken job' rest hstage hq =>
    -- the job that begins is the first one that waited
    have hwaiting : waiting r s.context = job' :: rest := by
      rw [← waiting_putBack s (s.path r) generation taken, waiting, hq, Option.getD_some]
    rcases hopen.entered with ⟨rfl, rfl⟩ | hopen
    · exact .inl (.inr (hwaiting ▸ List.mem_cons_self))
    · refine .inl (hopen.left fun job hmem => ?_)
      by_cases hid : s.context = id
      · subst hid
        obtain ⟨c', hc', hjob⟩ := mem_waiting.mp hmem
        rw [Registry.context?_modify] at hc'
        obtain ⟨c, -, rfl⟩ := Option.map_eq_some_iff.mp hc'
        rw [if_pos rfl] at hjob
        exact hwaiting ▸ List.mem_cons_of_mem _ hjob
      · rw [← waiting_putBack s (s.path r) generation taken]
        rwa [waiting, Registry.context?_modify_ne _ hid] at hmem
  | finished s hstage hq =>
    refine .inl (hopen.left fun job hmem => ?_)
    have hrelease := waiting_release s _ job hmem
    rwa [waiting_putBack] at hrelease
  | dropped f => exact .inl (hopen.left (waiting_release f.sequence _))

section

variable {σ τ : Scene} {h : Happening} {hs : List Happening} {id : Nat}

theorem Change.registration_kept (hc : Change σ h τ) (hend : h ≠ .ended id .prune) {p : String}
    (hfind : σ.registry.find? p = some id) : τ.registry.find? p = some id := by
  cases hc with
  | made path hf =>
    rw [Registry.find?_create hf, if_neg]
    · exact hfind
    · rintro rfl
      exact absurd (hf.symm.trans hfind) (by simp)
  | pruned s hstage =>
    -- the prune that ends is one of another context
    have hother : id ≠ s.context := fun heq => hend (heq ▸ rfl)
    exact Registry.find?_unregister hfind hother
  | resumed s hstage hq => simpa using hfind
  | finished s hstage hq => simpa [Sequence.release, Registry.setBusy] using hfind
  | _ => exact hfind

theorem Change.data_kept (hc : Change σ h τ) (hwrote : h ≠ .wrote id)
    (hmade : ∀ new path, h ≠ .made new path) :
    (τ.registry.context? id).map Context.data = (σ.registry.context? id).map Context.data := by
  cases hc with
  | @made r L path hf => exact absurd rfl (hmade r.contexts.length path)
  | wrote j f => rw [Registry.setData, Registry.context?_modify_ne _ fun heq => hwrote (congrArg _ heq)]
  | calledDispose j job callback left => rfl
  | calledAccept j module generation taken callback left => rfl
  | returned s => rfl
  | @pruned r A B s hstage =>
    refine (Registry.map_context?_modify _ _ _ ?_).trans
      ((Registry.map_context?_modify _ _ _ ?_).trans rfl)
    · exact fun _ => rfl
    · exact fun _ => rfl
  | @resumed r A B s module generation taken job rest hstage hq =>
    refine (Registry.map_context?_modify _ _ _ ?_).trans (map_putBack s r _ _ _ id ?_)
    · exact fun _ => rfl
    · exact fun _ _ => rfl
  | @finished r A B s module generation taken hstage hq =>
    refine (Registry.map_context?_modify _ _ _ ?_).trans (map_putBack s r _ _ _ id ?_)
    · exact fun _ => rfl
    · exact fun _ _ => rfl
  | _ => exact Registry.map_context?_modify _ _ id fun _ => rfl

/-- What has become of a context so far. -/
structure Tenure (id : Nat) (hs : List Happening) (σ : Scene) : Prop where
  registered : .ended id .prune ∉ hs →
    ∀ c, σ.registry.context? id = some c → σ.registry.find? c.path = some id
  forgotten : .ended id .prune ∈ hs →
    (∃ c, σ.registry.context? id = some c) ∧ ¬Registered σ.registry id
  asked : Open σ id .prune ∨ .ended id .prune ∈ hs → .asked id .prune ∈ hs
  unwritten : .wrote id ∉ hs → ∀ c, σ.registry.context? id = some c → c.data = {}

theorem Tenure.empty : Tenure id [] ⟨{}, []⟩ where
  registered := by simp [Registry.context?]
  forgotten := by simp
  asked := by simp [Open, waiting, Registry.context?]
  unwritten := by simp [Registry.context?]

theorem Change.forgets (hc : Change σ (.ended id .prune) τ) (hs' : Sound σ) :
    (∃ c, τ.registry.context? id = some c) ∧ ¬Registered τ.registry id := by
  obtain ⟨c, hctx, hout⟩ : ∃ c, σ.registry.context? id = some c ∧ ¬Registered τ.registry id := by
    cases hc with
    | pruned s hstage =>
      obtain ⟨-, c, hctx, -⟩ := hs'.held_once
      have hpath : s.path _ = c.path := World.path_of_context hctx
      refine ⟨c, hctx, ?_⟩
      rw [hpath]
      exact Served.not_registered_unregister hs' hctx
  obtain ⟨c', hctx', -⟩ := hc.context_kept hs' ⟨c, hctx, rfl⟩
  exact ⟨⟨c', hctx'⟩, hout⟩

theorem Change.prune_open (hc : Change σ (.ended id .prune) τ) : Open σ id .prune := by
  cases hc with
  | pruned s hstage => exact .inl ⟨⟨false, s⟩, by simp, rfl, by simp [Flight.standing, hstage]⟩

theorem Change.context_before (hc : Change σ h τ) (hs' : Sound σ)
    {c' : Context (Callback Action) Value} (hc' : τ.registry.context? id = some c') :
    (c'.data = {} ∧ τ.registry.find? c'.path = some id) ∨
      ∃ c, σ.registry.context? id = some c ∧ c.path = c'.path ∧
        (h ≠ .wrote id → c'.data = c.data) := by
  by_cases hmade : ∃ new path, h = .made new path
  · obtain ⟨new, path, rfl⟩ := hmade
    cases hc with
    | made path hf =>
      rw [Registry.context?_create hf] at hc'
      split at hc'
      · rename_i hid
        obtain rfl := Option.some.inj hc'
        refine .inl ⟨rfl, ?_⟩
        rw [Registry.find?_create hf, if_pos rfl, hid]
      · exact .inr ⟨c', hc', rfl, fun _ => rfl⟩
  · have hother : ∀ new path, h ≠ .made new path := fun new path heq => hmade ⟨new, path, heq⟩
    obtain ⟨c, hc₀, hpath⟩ := (hc.steady hs' hother).context.mp ⟨c', hc', rfl⟩
    refine .inr ⟨c, hc₀, hpath, fun hwrote => ?_⟩
    have hdata := hc.data_kept hwrote hother
    rw [hc', hc₀] at hdata
    exact Option.some.inj hdata

theorem Change.stays_forgotten (hc : Change σ h τ) (hs' : Sound σ)
    (hid : ∃ c, σ.registry.context? id = some c) (hout : ¬Registered σ.registry id) :
    ¬Registered τ.registry id := by
  rintro ⟨p, hfind⟩
  by_cases hmade : ∃ new path, h = .made new path
  · -- what is made has a number of its own
    obtain ⟨new, path, rfl⟩ := hmade
    cases hc with
    | made path hf =>
      rw [Registry.find?_create hf] at hfind
      split at hfind
      · obtain ⟨c, hctx⟩ := hid
        exact Nat.ne_of_lt (Registry.context?_lt hctx) (Option.some.inj hfind).symm
      · exact hout ⟨p, hfind⟩
  · have hsteady := hc.steady hs' fun new path heq => hmade ⟨new, path, heq⟩
    exact hout ⟨p, hsteady.registered p id hfind⟩

theorem Change.tenure (hc : Change σ h τ) (hs' : Sound σ) (hv : Tenure id hs σ) :
    Tenure id (hs ++ [h]) τ where
  registered := by
    intro hnot c' hc'
    rw [List.mem_append, List.mem_singleton, not_or] at hnot
    rcases hc.context_before hs' hc' with ⟨-, hfind⟩ | ⟨c, hc₀, hpath, -⟩
    · exact hfind
    · rw [← hpath]
      exact hc.registration_kept (Ne.symm hnot.2) (hv.registered hnot.1 c hc₀)
  forgotten := by
    intro hmem
    rcases List.mem_append.mp hmem with hold | hlast
    · obtain ⟨⟨c, hctx⟩, hout⟩ := hv.forgotten hold
      obtain ⟨c', hctx', -⟩ := hc.context_kept hs' ⟨c, hctx, rfl⟩
      exact ⟨⟨c', hctx'⟩, hc.stays_forgotten hs' ⟨c, hctx⟩ hout⟩
    · obtain rfl := List.mem_singleton.mp hlast
      exact hc.forgets hs'
  asked := by
    intro hprune
    -- a prune that ends was open before, and one that is open was so or is asked for now
    have hbefore : Open σ id .prune ∨ .ended id .prune ∈ hs ∨ h = .asked id .prune := by
      rcases hprune with hopen | hmem
      · exact (hc.open_before hopen).imp_right .inr
      · rcases List.mem_append.mp hmem with hold | hlast
        · exact .inr (.inl hold)
        · obtain rfl := List.mem_singleton.mp hlast
          exact .inl hc.prune_open
    rcases hbefore with hopen | hended | rfl
    · exact List.mem_append_left _ (hv.asked (.inl hopen))
    · exact List.mem_append_left _ (hv.asked (.inr hended))
    · exact List.mem_append_right _ (List.mem_singleton_self _)
  unwritten := by
    intro hnot c' hc'
    rw [List.mem_append, List.mem_singleton, not_or] at hnot
    rcases hc.context_before hs' hc' with ⟨hdata, -⟩ | ⟨c, hc₀, -, hdata⟩
    · exact hdata
    · rw [hdata (Ne.symm hnot.2)]
      exact hv.unwritten hnot.1 c hc₀

theorem Changes.tenure (hc : Changes σ hs τ) (h : Sound σ) (hv : Tenure id [] σ) :
    Tenure id hs τ := by
  induction hc with
  | refl => exact hv
  | next hfirst hlast ih => exact hlast.tenure (hfirst.sound h) ih

end

namespace World

theorem run_tenure (modules : List (String × List Action)) (turns : List Turn) (id : Nat) :
    Tenure id ((initial modules).history turns) ((initial modules).after turns).scene :=
  (run_changes modules turns).tenure .empty .empty

/-- A context that is registered stays so until a prune of it has been asked for. -/
theorem registration_lasts (modules : List (String × List Action)) (turns more : List Turn)
    {path : String} {id : Nat}
    (hfind : ((initial modules).after turns).registry.find? path = some id)
    (hasked : .asked id .prune ∉ (initial modules).history (turns ++ more)) :
    ((initial modules).after (turns ++ more)).registry.find? path = some id := by
  have hlast : Tenure id _ _ := run_tenure modules (turns ++ more) id
  have hnow := Sound.registered (run_sound modules turns) hfind
  have hchanges := history_changes _ more (after_wellStacked modules turns)
  rw [← after_append] at hchanges
  obtain ⟨c, hc, hpath⟩ := hchanges.context_kept (run_sound modules turns) hnow
  rw [← hpath]
  exact hlast.registered (fun hended => hasked (hlast.asked (.inr hended))) c hc

/-- In this turn the context of a path is created. -/
def Creates (w : World) (path : String) : Turn → Prop
  | .operate (.effect (.create p _)) => p = path
  | .operate _ => False
  | .step t => ∃ scope handle rest below,
    w.tasks[t]? = some (.script scope (.effect (.create path handle) :: rest) :: below)

theorem Creates.registry {w : World} {path : String} {turn : Turn} (h : w.Creates path turn) :
    (w.turn turn).registry = (w.registry.create path).2.1 := by
  cases turn with
  | operate operation =>
    cases operation with
    | effect effect =>
      cases effect with
      | create p handle =>
        obtain rfl : p = path := h
        simp [World.turn, operate, perform]
      | _ => exact h.elim
    | start command => exact h.elim
    | cancel t => exact h.elim
  | step t =>
    obtain ⟨scope, handle, rest, below, ht⟩ := h
    simp [World.turn, step, ht, stepFrame, act, perform]

/-- A context that is created while a prune of it is under way or waits is the one that is there, with
the data it has. One that is created when the prune is over is another one, whose data started empty;
and whatever is created stays registered until a prune of its own has been asked for. -/
theorem create_around_prune (modules : List (String × List Action)) (turns : List Turn)
    (turn : Turn) {id : Nat} {c : Context (Callback Action) Value}
    (hc : ((initial modules).after turns).registry.context? id = some c)
    (hcreates : ((initial modules).after turns).Creates c.path turn) :
    let w := (initial modules).after turns
    let hs := (initial modules).history turns
    let j := (w.registry.create c.path).1
    let r := (w.turn turn).registry
    r.find? c.path = some j ∧
    (.ended id .prune ∉ hs → j = id ∧ (r.context? j).map Context.data = some c.data) ∧
    (.ended id .prune ∈ hs → j ≠ id ∧
      (.wrote j ∉ hs → (r.context? j).map Context.data = some {})) ∧
    ∀ more, .asked j .prune ∉ (initial modules).history (turns ++ turn :: more) →
      ((initial modules).after (turns ++ turn :: more)).registry.find? c.path = some j := by
  intro w hs j r
  have hregistry : r = (w.registry.create c.path).2.1 := hcreates.registry
  have hfound : r.find? c.path = some j := hregistry ▸ Registry.find?_created w.registry c.path
  have htenure : Tenure id hs w.scene := run_tenure modules turns id
  refine ⟨hfound, fun hopen => ?_, fun hended => ?_, fun more hmore => ?_⟩
  · have hfind : w.registry.find? c.path = some id := htenure.registered hopen c hc
    obtain ⟨hj, hr⟩ := Registry.create_of_some hfind
    refine ⟨hj, ?_⟩
    rw [show j = id from hj, hregistry, hr, Registry.context?_modify_self hc]
    rfl
  · obtain ⟨-, hout⟩ := htenure.forgotten hended
    cases hfind : w.registry.find? c.path with
    | none =>
      have hj : j = w.registry.contexts.length := by simp [j, Registry.create, hfind]
      refine ⟨hj ▸ (Nat.ne_of_lt (Registry.context?_lt hc)).symm, fun _ => ?_⟩
      rw [hregistry, Registry.context?_create hfind, if_pos hj]
      rfl
    | some k =>
      -- the path has been created anew since the prune was over
      obtain ⟨hj, hr⟩ := Registry.create_of_some hfind
      have hk : j = k := hj
      refine ⟨fun heq => hout ⟨c.path, hfind.trans (by rw [← hk, heq])⟩, fun hwrote => ?_⟩
      obtain ⟨c', hc', -⟩ := Sound.registered (run_sound modules turns) hfind
      have hempty : c'.data = {} := (run_tenure modules turns k).unwritten (hk ▸ hwrote) c' hc'
      rw [hk, hregistry, hr, Registry.context?_modify_self hc', Option.map_some, ← hempty]
      rfl
  · have hnow : ((initial modules).after (turns ++ [turn])).registry.find? c.path = some j := by
      rw [after_append]
      exact hfound
    rw [List.append_cons] at hmore ⊢
    exact registration_lasts modules (turns ++ [turn]) more hnow hmore

/-- A module that has data is pruned; its disposing callback holds the prune up. -/
def pruneHeldUp : List Turn :=
  [Turn.operate (.effect (.create "/p" (some "p"))), .operate (.effect (.set (some "p") "k" .null)),
    .operate (.effect (.dispose "p" { steps := [.wait "g"] })),
    .operate (.start (.prune "/p"))] ++ List.replicate 4 (Turn.step 0)

def pruneOver : List Turn :=
  pruneHeldUp ++ Turn.operate (.effect (.openGate "g")) :: List.replicate 3 (.step 0)

theorem create_around_prune_over :
    let create : Turn := .operate (.effect (.create "/p" none))
    let update : List Turn := .operate (.start (.apply "/p" none)) :: List.replicate 5 (.step 1)
    let w := (initial []).after pruneOver
    let r := (w.turn create).registry
    w.Creates "/p" create ∧ .ended 0 .prune ∈ (initial []).history pruneOver ∧
    r.find? "/p" = some 1 ∧ (r.context? 1).map Context.data = some {} ∧
    ((initial []).after (pruneOver ++ create :: update)).registry.find? "/p" = some 1 := by
  intro create update w r
  have hs : (initial []).history pruneOver = [.made 0 "/p", .wrote 0,
      .disposes 0 { steps := [.wait "g"] }, .asked 0 .prune, .begun 0 .prune,
      .called 0 .dispose { steps := [.wait "g"] } none, .returned 0 .dispose,
      .ended 0 .prune] := rfl
  have hupdated : (initial []).history (pruneOver ++ create :: update) =
      (initial []).history pruneOver ++ [Happening.made 1 "/p", .asked 1 (.update none),
        .begun 1 (.update none), .turned 1, .ended 1 (.update none)] := by
    unfold create update
    rfl
  have hcreates : w.Creates "/p" create := rfl
  have hended : .ended 0 .prune ∈ (initial []).history pruneOver := by simp [hs]
  have hj : (w.registry.create "/p").1 = 1 := rfl
  have h := @create_around_prune [] pruneOver create 0
    { path := "/p", data := ⟨[("k", .null)]⟩ } rfl hcreates
  simp only [show ((initial []).after pruneOver) = w from rfl, hj] at h
  obtain ⟨hfind, -, hnew, hlasts⟩ := h
  refine ⟨hcreates, hended, hfind, (hnew hended).2 (by simp [hs]), hlasts update ?_⟩
  simp [hupdated, hs]

/-- A context that is created while its prune is held up has the data it had, and the prune takes it
away, though no other prune was asked for. -/
theorem created_context_pruned :
    let create : Turn := .operate (.effect (.create "/p" none))
    let rest : List Turn := .operate (.effect (.openGate "g")) :: List.replicate 3 (.step 0)
    let w := (initial []).after pruneHeldUp
    let r := (w.turn create).registry
    w.Creates "/p" create ∧ .asked 0 .prune ∈ (initial []).history pruneHeldUp ∧
    r.find? "/p" = some 0 ∧ (r.context? 0).map (fun c => c.data.size) = some 1 ∧
    asked 0 ((initial []).history (pruneHeldUp ++ create :: rest)) = [.prune] ∧
    .ended 0 .prune ∈ (initial []).history (pruneHeldUp ++ create :: rest) ∧
    ((initial []).after (pruneHeldUp ++ create :: rest)).registry.find? "/p" = none := by
  intro create rest w r
  have hasked : .asked 0 .prune ∈ (initial []).history pruneHeldUp :=
    List.mem_of_getElem? (i := 3) rfl
  have hended : .ended 0 .prune ∈ (initial []).history (pruneHeldUp ++ create :: rest) :=
    List.mem_of_getElem? (i := 8) rfl
  exact ⟨rfl, hasked, rfl, rfl, rfl, hended, rfl⟩

end World

end ModuleHost.Hot
