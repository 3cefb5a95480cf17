import ModuleHost.Proofs.Hot.Callbacks
import ModuleHost.Proofs.Hot.Provenance

/-! What a prune cleans up. It takes the disposing callbacks once, when it begins, and calls each of
them; what is registered on the context while they run goes with the context and is never called. -/

namespace ModuleHost.Hot

open ModuleHost.Json

/-- The callbacks registered to dispose a context, in the order of their registration. -/
def registrations (id : Nat) (hs : List Happening) : List (Callback Action) :=
  hs.filterMap fun
    | .disposes j callback => if j = id then some callback else none
    | _ => none

def Account.job? (a : Account) : Option (Job Value) := a.courses.head?.map Course.job

section

variable {id : Nat} {hs : List Happening} {h : Happening} {a : Account} {job : Job Value}

@[simp] theorem registrations_nil : registrations id [] = [] := rfl

theorem registrations_snoc_disposes (callback : Callback Action) :
    registrations id (hs ++ [Happening.disposes id callback]) = registrations id hs ++ [callback] := by
  simp [registrations]

theorem registrations_snoc_ne (hne : h.context ≠ id) :
    registrations id (hs ++ [h]) = registrations id hs := by
  rw [registrations, filterMap_snoc]
  cases h with
  | disposes j callback =>
    have hj : j ≠ id := hne
    simp [registrations, hj]
  | _ => exact List.append_nil _

theorem registrations_snoc_other (hd : ∀ callback, h ≠ .disposes id callback) :
    registrations id (hs ++ [h]) = registrations id hs := by
  by_cases hid : h.context = id
  · rw [registrations, filterMap_snoc]
    cases h with
    | disposes j callback =>
      obtain rfl : j = id := hid
      exact absurd rfl (hd callback)
    | _ => exact List.append_nil _
  · exact registrations_snoc_ne hid

theorem Account.act_job? (act : Act) : (a.act act).job? = a.job? := by
  unfold Account.act Account.job?
  cases a.courses <;> rfl

theorem Account.note_job? (hm : ∀ path, h ≠ .made h.context path)
    (hb : ∀ job, h ≠ .begun h.context job) : (a.note h).job? = a.job? := by
  cases h with
  | made j path => exact absurd rfl (hm path)
  | begun j job => exact absurd rfl (hb job)
  | called j phase callback module => cases phase <;> exact Account.act_job? _
  | returned j phase => exact Account.act_job? _
  | turned j =>
    refine Eq.trans ?_ (Account.act_job? (a := a) .turn)
    unfold Account.note Account.job?
    cases (a.act .turn).courses <;> rfl
  | ended j job =>
    unfold Account.note Account.job?
    cases a.courses <;> rfl
  | _ => rfl

/-- A sequence takes what is registered to dispose when it begins, so that what has been registered
since then is what its context has. -/
structure BegunLast (id : Nat) (job : Job Value) (hs before during : List Happening) : Prop where
  split : hs = before ++ .begun id job :: during
  last : ∀ job, .begun id job ∉ during
  registered : (account id hs).registered =
    (account id before).registered ++ registrations id during
  disposes : (account id hs).disposes = registrations id during

theorem BegunLast.next {before during : List Happening} (hl : BegunLast id job hs before during)
    (hb : ∀ job, h ≠ .begun id job)
    (hr : ∃ new, (account id (hs ++ [h])).registered = (account id hs).registered ++ new ∧
      (account id (hs ++ [h])).disposes = (account id hs).disposes ++ new ∧
      registrations id (during ++ [h]) = registrations id during ++ new) :
    BegunLast id job (hs ++ [h]) before (during ++ [h]) := by
  obtain ⟨new, hregistered, hdisposes, hduring⟩ := hr
  constructor
  · simp [hl.split]
  · intro job hmem
    rcases List.mem_append.mp hmem with hold | hnow
    · exact hl.last job hold
    · exact hb job (List.mem_singleton.mp hnow).symm
  · rw [hregistered, hduring, hl.registered, List.append_assoc]
  · rw [hdisposes, hduring, hl.disposes]

theorem account_snoc_registers (hm : ∀ path, h ≠ .made id path) (hb : ∀ job, h ≠ .begun id job)
    (during : List Happening) :
    ∃ new, (account id (hs ++ [h])).registered = (account id hs).registered ++ new ∧
      (account id (hs ++ [h])).disposes = (account id hs).disposes ++ new ∧
      registrations id (during ++ [h]) = registrations id during ++ new := by
  by_cases hid : h.context = id
  · subst hid
    rw [account_snoc_self]
    cases h with
    | made j path => exact absurd rfl (hm path)
    | begun j job => exact absurd rfl (hb job)
    | disposes j callback => exact ⟨[callback], rfl, rfl, registrations_snoc_disposes callback⟩
    | called j phase callback module =>
      refine ⟨[], ?_, ?_, by rw [registrations_snoc_other (by simp), List.append_nil]⟩ <;>
        cases phase <;> simp [Account.note, Account.act]
    | _ =>
      exact ⟨[], by simp [Account.note, Account.act], by simp [Account.note, Account.act],
        by rw [registrations_snoc_other (by simp), List.append_nil]⟩
  · rw [account_snoc_ne hs hid, registrations_snoc_ne hid]
    exact ⟨[], by simp, by simp, by simp⟩

theorem exists_begunLast (hjob : (account id hs).job? = some job) :
    ∃ before during, BegunLast id job hs before during := by
  induction hs using List.reverseRecOn with
  | nil => simp [account, Account.job?] at hjob
  | append_singleton hs h ih =>
    by_cases hb : ∃ job, h = .begun id job
    · obtain ⟨job', rfl⟩ := hb
      have hnote := account_snoc_self hs (.begun id job')
      simp only [Happening.context] at hnote
      obtain rfl : job' = job := by simpa [hnote, Account.note, Account.job?] using hjob
      refine ⟨hs, [], rfl, by simp, ?_, ?_⟩ <;> simp [hnote, Account.note]
    · have hm : ∀ path, h ≠ .made id path := by
        rintro path rfl
        have hnote := account_snoc_self hs (.made id path)
        simp only [Happening.context] at hnote
        simp [hnote, Account.note, Account.job?] at hjob
      have hsame : (account id (hs ++ [h])).job? = (account id hs).job? := by
        by_cases hid : h.context = id
        · subst hid
          rw [account_snoc_self]
          exact Account.note_job? hm fun job heq => hb ⟨job, heq⟩
        · rw [account_snoc_ne hs hid]
      obtain ⟨before, during, hl⟩ := ih (hsame ▸ hjob)
      have hb' : ∀ job, h ≠ .begun id job := fun job heq => hb ⟨job, heq⟩
      exact ⟨before, during ++ [h], hl.next hb' (account_snoc_registers hm hb' during)⟩

theorem disposed_byHandle (later : List Happening)
    (hlater : ∀ h ∈ later, h.context = id → h.byHandle = true) :
    (account id (hs ++ later)).disposed = (account id hs).disposed := by
  induction later using List.reverseRecOn with
  | nil => rw [List.append_nil]
  | append_singleton later h ih =>
    have hbefore := ih fun k hk => hlater k (List.mem_append_left _ hk)
    have hnow := hlater h (by simp)
    rw [← List.append_assoc]
    by_cases hid : h.context = id
    · have hhandle := hnow hid
      subst hid
      rw [account_snoc_self, ← hbefore]
      cases h <;> first | rfl | cases hhandle
    · rw [account_snoc_ne _ hid, hbefore]

/-- When a prune is over, what its context has been called to dispose is what was registered before
it began. -/
theorem Followed.prune_over {σ τ : Scene} (hv : Followed id (account id hs) σ) (hsound : Sound σ)
    (hprune : Change σ (.ended id .prune) τ) :
    ∃ before during, BegunLast id .prune hs before during ∧
      (account id hs).disposed = (account id before).registered := by
  cases hprune with
  | @pruned r A B s hstage =>
    obtain ⟨id, stage⟩ := s
    obtain rfl : stage = .disposing .prune [] := hstage
    have hf := hsound.flightsOf_self ⟨false, ⟨id, .disposing .prune []⟩⟩ rfl
    simp only [Flight.context] at hf
    cases hv with
    | unknown hc flight => simp [hf] at flight
    | resting hc flight => simp [hf] at flight
    | disposing course older calling job left hc flight disposes registered accepts courses done
        current running acts =>
      obtain ⟨-, rfl, rfl⟩ : false = calling ∧ .prune = job ∧ [] = left := by
        simpa [hf] using flight
      have hjob : (account id hs).job? = some .prune := by simp [Account.job?, courses, current]
      obtain ⟨before, during, hl⟩ := exists_begunLast hjob
      refine ⟨before, during, hl, ?_⟩
      have hall : (account id hs).disposed ++ registrations id during =
          (account id before).registered ++ registrations id during := by
        rw [← hl.registered, registered, List.append_nil, hl.disposes]
      exact List.append_cancel_right hall
    | accepting course older calling module generation taken left hc flight => simp [hf] at flight

end

namespace World

/-- A prune that has been executed has called, one for one, the callbacks that were registered to
dispose before it began, and in the whole run nothing else is called to dispose its context. What is
registered while its callbacks run is lost: all that was registered has been called exactly if
nothing was registered meanwhile. -/
theorem prune_disposes_registered (modules : List (String × List Action)) (turns : List Turn)
    (id : Nat) (earlier later : List Happening) (hdrop : (initial modules).Undropped turns)
    (h : (initial modules).history turns = earlier ++ .ended id .prune :: later) :
    ∃ before during, earlier = before ++ .begun id .prune :: during ∧
      (∀ job, .begun id job ∉ during) ∧
      (account id earlier).disposed = (account id before).registered ∧
      (account id earlier).registered =
        (account id before).registered ++ registrations id during ∧
      (account id ((initial modules).history turns)).disposed = (account id earlier).disposed ∧
      ((account id earlier).disposed = (account id earlier).registered ↔
        registrations id during = []) := by
  obtain ⟨τ, τ', hbefore, hprune, hafter⟩ := (run_changes modules turns).middle h
  have hsound : Sound τ := hbefore.sound .empty
  have hkept : ∀ id, .dropped id ∉ earlier :=
    fun id hmem => hdrop id (h ▸ List.mem_append_left _ hmem)
  have hv : Followed id (account id earlier) τ :=
    hbefore.followed id .empty hkept (.unknown (by simp [Registry.context?]) rfl rfl rfl)
  obtain ⟨before, during, hl, hdisposed⟩ := hv.prune_over hsound hprune
  obtain ⟨c, hc, -⟩ := hprune.pruned_placed hsound
  obtain ⟨c', hc', -⟩ := hprune.context_kept hsound ⟨c, hc, rfl⟩
  obtain ⟨-, hhandle⟩ :=
    hafter.byHandle (hprune.sound hsound) ⟨c', hc'⟩ (hprune.forgets hsound).2
  -- behind the prune only those who hold a handle reach the context, and they dispose of nothing
  have hrest : (account id ((initial modules).history turns)).disposed =
      (account id earlier).disposed := by
    have hsnoc := account_snoc_self earlier (.ended id .prune)
    simp only [Happening.context] at hsnoc
    rw [h, List.append_cons, disposed_byHandle later hhandle, hsnoc]
    rfl
  refine ⟨before, during, hl.split, hl.last, hdisposed, hl.registered, hrest, ?_⟩
  rw [hdisposed, hl.registered, List.self_eq_append_right]

def lateCallback : Callback Action := { steps := [.effect (.note "late")] }

/-- While the disposing callback of a prune waits, the path is created again, and the new instance
registers a callback of its own on what is still the same context. -/
def renewedBehindPrune : List Turn :=
  [.operate (.effect (.create "/p" (some "old"))),
    .operate (.effect (.dispose "old" { steps := [.wait "g"] })),
    .operate (.start (.prune "/p")), .step 0, .step 0, .step 0,
    .operate (.effect (.create "/p" (some "new"))),
    .operate (.effect (.dispose "new" lateCallback)),
    .operate (.effect (.openGate "g")), .step 0, .step 0, .step 0, .step 0]

theorem prune_disposes_registered_renewedBehindPrune :
    (initial []).Undropped renewedBehindPrune ∧ ∃ earlier later : List Happening,
      (initial []).history renewedBehindPrune = earlier ++ .ended 0 .prune :: later ∧
      (account 0 earlier).registered = [{ steps := [.wait "g"] }, lateCallback] ∧
      (account 0 ((initial []).history renewedBehindPrune)).disposed =
        [{ steps := [.wait "g"] }] ∧
      (account 0 earlier).disposed ≠ (account 0 earlier).registered := by
  let earlier : List Happening :=
    [.made 0 "/p", .disposes 0 { steps := [.wait "g"] }, .asked 0 .prune, .begun 0 .prune,
      .called 0 .dispose { steps := [.wait "g"] } none, .reused 0, .disposes 0 lateCallback,
      .returned 0 .dispose]
  have hdrop : (initial []).Undropped renewedBehindPrune :=
    undropped_of_uncancelled _ _ (by simp [renewedBehindPrune])
  have hhistory : (initial []).history renewedBehindPrune = earlier ++ [.ended 0 .prune] := by cbv
  have hregistered : (account 0 earlier).registered = [{ steps := [.wait "g"] }, lateCallback] := by
    rfl
  have hdisposed : (account 0 earlier).disposed = [{ steps := [.wait "g"] }] := by rfl
  obtain ⟨before, during, -, -, -, -, hrest, -⟩ :=
    prune_disposes_registered [] renewedBehindPrune 0 earlier [] hdrop hhistory
  refine ⟨hdrop, earlier, [], hhistory, hregistered, hrest.trans hdisposed, fun heq => ?_⟩
  have hlength := congrArg List.length heq
  rw [hregistered, hdisposed] at hlength
  exact absurd hlength (by decide)

/-- The disposing callback of a prune registers another one. -/
def disposedWhileDisposing : List Turn :=
  [.operate (.effect (.create "/p" (some "h"))),
    .operate (.effect (.dispose "h" { steps := [.effect (.dispose "h" lateCallback)] })),
    .operate (.start (.prune "/p")), .step 0, .step 0, .step 0, .step 0, .step 0, .step 0]

/-- The callback that was registered before the prune was over is never called. -/
theorem cleanup_lost : (initial []).Undropped disposedWhileDisposing ∧
    ∃ earlier : List Happening,
      (initial []).history disposedWhileDisposing = earlier ++ [.ended 0 .prune] ∧
      .disposes 0 lateCallback ∈ earlier ∧
      ∀ module, .called 0 .dispose lateCallback module ∉ earlier := by
  let first : Callback Action := { steps := [.effect (.dispose "h" lateCallback)] }
  refine ⟨undropped_of_uncancelled _ _ (by simp [disposedWhileDisposing]),
    [.made 0 "/p", .disposes 0 first, .asked 0 .prune, .begun 0 .prune,
      .called 0 .dispose first none, .disposes 0 lateCallback, .returned 0 .dispose],
    by cbv, by simp, fun module hmem => ?_⟩
  simp [first, lateCallback] at hmem

end World

end ModuleHost.Hot
