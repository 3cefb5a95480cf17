import Mathlib.Data.List.Permutation
import Mathlib.Data.String.Basic
import ModuleHost.Proofs.Hot.Tenure

/-! What the creations of a path are given: the same context as before, until a prune of the path
has been executed, and then a new one. The paths that are listed are those that were created
since. -/

namespace ModuleHost.Hot

open ModuleHost.Json

namespace Registry

variable {α μ : Type}

theorem mem_paths {r : Registry α μ} {path : String} :
    path ∈ r.paths ↔ ∃ id, r.find? path = some id := by
  rw [paths, List.mem_mergeSort, List.mem_map, ← Option.isSome_iff_exists, find?,
    Option.isSome_map, List.find?_isSome]
  simp

theorem paths_sorted {r : Registry α μ} (h : (r.registered.map Prod.fst).Nodup) :
    r.paths.Pairwise (· < ·) := by
  have hle : r.paths.Pairwise fun a b => decide (a ≤ b) = true :=
    List.pairwise_mergeSort (fun a b c => by simpa using le_trans)
      (fun a b => by simpa using le_total a b) _
  have hne : r.paths.Pairwise (· ≠ ·) := (List.mergeSort_perm _ _).nodup_iff.mpr h
  exact hle.imp₂ (fun a b hab hne => lt_of_le_of_ne (of_decide_eq_true hab) hne) hne

theorem create_eq_iff {r : Registry α μ} {path : String} {id : Nat} {c : Context α μ}
    (hc : r.context? id = some c) : (r.create path).1 = id ↔ r.find? path = some id := by
  cases hfind : r.find? path with
  | none =>
    have hnew : (r.create path).1 = r.contexts.length := by simp [create, hfind]
    simpa [hnew] using (Nat.ne_of_lt (context?_lt hc)).symm
  | some k =>
    obtain ⟨hk, -⟩ := create_of_some hfind
    simp [hk]

end Registry

section

variable {σ τ : Scene} {h : Happening} {hs : List Happening} {path : String} {id : Nat}

theorem Changes.registration_kept (hc : Changes σ hs τ) (hend : .ended id .prune ∉ hs)
    (hfind : σ.registry.find? path = some id) : τ.registry.find? path = some id := by
  induction hc with
  | refl => exact hfind
  | next hfirst hlast ih =>
    rw [List.mem_append, List.mem_singleton, not_or] at hend
    exact hlast.registration_kept (Ne.symm hend.2) (ih hend.1)

theorem Change.registered_before (hc : Change σ h τ) (hs' : Sound σ)
    (hmade : ∀ new, h ≠ .made new path) (hfind : τ.registry.find? path = some id) :
    σ.registry.find? path = some id := by
  by_cases hany : ∃ new p, h = .made new p
  · obtain ⟨new, p, rfl⟩ := hany
    cases hc with
    | made p hf =>
      rw [Registry.find?_create hf, if_neg] at hfind
      · exact hfind
      · rintro rfl
        exact hmade _ rfl
  · exact (hc.steady hs' fun new p heq => hany ⟨new, p, heq⟩).registered path id hfind

theorem Changes.registered_before (hc : Changes σ hs τ) (hs' : Sound σ)
    (hmade : ∀ new, .made new path ∉ hs) (hfind : τ.registry.find? path = some id) :
    σ.registry.find? path = some id := by
  induction hc with
  | refl => exact hfind
  | next hfirst hlast ih =>
    refine ih (fun new hmem => hmade new (List.mem_append_left _ hmem)) ?_
    refine hlast.registered_before (hfirst.sound hs') (fun new heq => ?_) hfind
    exact hmade new (by simp [heq])

theorem Change.pruned_placed (hc : Change σ (.ended id .prune) τ) (hs' : Sound σ) :
    Placed σ.registry id := by
  cases hc with
  | pruned s hstage => exact hs'.held _ (by simp [Flight.context])

/-- A prune that is executed is one of the context that is registered then. -/
theorem Changes.pruned_registered (hc : Changes σ hs τ) (hs' : Sound σ)
    (hfind : σ.registry.find? path = some id) {k : Nat}
    (hk : ∃ c, σ.registry.context? k = some c ∧ c.path = path) (hend : .ended k .prune ∈ hs) :
    .ended id .prune ∈ hs := by
  induction hc with
  | refl => cases hend
  | @next hs _ _ _ hfirst hlast ih =>
    rcases List.mem_append.mp hend with hold | hnow
    · exact List.mem_append_left _ (ih hold)
    · by_cases hbefore : .ended id .prune ∈ hs
      · exact List.mem_append_left _ hbefore
      · obtain rfl := List.mem_singleton.mp hnow
        -- until then the path keeps its context, and what is held is registered
        have hstill := hfirst.registration_kept hbefore hfind
        obtain ⟨c, hc, hpath⟩ := hfirst.context_kept hs' hk
        obtain ⟨c', hc', hheld⟩ := hlast.pruned_placed (hfirst.sound hs')
        obtain rfl : c = c' := Option.some.inj (hc.symm.trans hc')
        rw [hpath, hstill] at hheld
        rw [Option.some.inj hheld]
        exact hend

theorem Changes.data_kept (hc : Changes σ hs τ) (hs' : Sound σ)
    {c : Context (Callback Action) Value} (hctx : σ.registry.context? id = some c)
    (hwrote : .wrote id ∉ hs) : (τ.registry.context? id).map Context.data = some c.data := by
  induction hc with
  | refl => rw [hctx, Option.map_some]
  | @next _ _ _ h hfirst hlast ih =>
    rw [List.mem_append, List.mem_singleton, not_or] at hwrote
    rw [← ih hwrote.1]
    by_cases hmade : ∃ new p, h = .made new p
    · obtain ⟨new, p, rfl⟩ := hmade
      obtain ⟨d, hd, -⟩ := hfirst.context_kept hs' ⟨c, hctx, rfl⟩
      cases hlast with
      | made p hf =>
        rw [Registry.context?_create hf, if_neg (Nat.ne_of_lt (Registry.context?_lt hd))]
    · exact hlast.data_kept (Ne.symm hwrote.2) fun new p heq => hmade ⟨new, p, heq⟩

theorem Changes.forgotten (hc : Changes σ hs τ) (hs' : Sound σ) (hend : .ended id .prune ∈ hs) :
    (∃ c, τ.registry.context? id = some c) ∧ ¬Registered τ.registry id := by
  induction hc with
  | refl => cases hend
  | next hfirst hlast ih =>
    have hsound := hfirst.sound hs'
    rcases List.mem_append.mp hend with hold | hnow
    · obtain ⟨⟨c, hctx⟩, hout⟩ := ih hold
      obtain ⟨c', hctx', -⟩ := hlast.context_kept hsound ⟨c, hctx, rfl⟩
      exact ⟨⟨c', hctx'⟩, hlast.stays_forgotten hsound ⟨c, hctx⟩ hout⟩
    · obtain rfl := List.mem_singleton.mp hnow
      exact hlast.forgets hsound

end

namespace World

def Prunes (w : World) (path : String) (turn : Turn) : Prop :=
  ∃ id c, .ended id .prune ∈ w.happenings turn ∧ w.registry.context? id = some c ∧ c.path = path

/-- In one of these turns a prune of a path is executed. -/
def PrunedIn (w : World) (path : String) : List Turn → Prop
  | [] => False
  | turn :: turns => w.Prunes path turn ∨ (w.turn turn).PrunedIn path turns

/-- The path has been created, and no prune of it has been executed since. -/
def CreatedSince (w : World) (path : String) (turns : List Turn) : Prop :=
  ∃ before create since, turns = before ++ create :: since ∧
    (w.after before).Creates path create ∧ ¬((w.after before).turn create).PrunedIn path since

theorem effectHappenings_made {w : World} {scope : Scope} {effect : Effect Action} {id : Nat}
    {path : String} (h : .made id path ∈ w.effectHappenings scope effect) :
    ∃ handle, effect = .create path handle := by
  cases effect with
  | create p handle =>
    rw [effectHappenings] at h
    split at h
    · simp at h
    · simp only [List.mem_singleton, Happening.made.injEq] at h
      exact ⟨handle, by rw [h.2]⟩
  | _ => simp [effectHappenings] at h

theorem creates_of_made {w : World} {turn : Turn} {id : Nat} {path : String}
    (h : .made id path ∈ w.happenings turn) : w.Creates path turn := by
  cases turn with
  | operate operation =>
    cases operation with
    | effect effect =>
      obtain ⟨handle, rfl⟩ := effectHappenings_made h
      rfl
    | start command => simp [happenings] at h
    | cancel t => simp [happenings] at h
  | step t =>
    simp only [happenings] at h
    cases ht : w.tasks[t]? with
    | none => simp [ht, stepHappenings] at h
    | some frames =>
      rw [ht, Option.getD_some] at h
      unfold stepHappenings at h
      split at h
      · simp at h
      · simp at h
      · simp at h
      · obtain ⟨handle, rfl⟩ := effectHappenings_made h
        exact ⟨_, handle, _, _, ht⟩
      · simp at h
      · rw [List.mem_singleton] at h
        unfold Sequence.happening at h
        split at h <;> cases h
      · simp at h

theorem prunedIn_iff {w : World} (hw : w.WellStacked) (hs : Sound w.scene) {path : String}
    {id : Nat} (hfind : w.registry.find? path = some id) (turns : List Turn) :
    w.PrunedIn path turns ↔ .ended id .prune ∈ w.history turns := by
  induction turns generalizing w with
  | nil => simp [PrunedIn, history]
  | cons turn turns ih =>
    obtain ⟨hc, hw'⟩ := turn_changes w turn hw
    rw [PrunedIn, history, List.mem_append]
    by_cases hnow : .ended id .prune ∈ w.happenings turn
    · obtain ⟨c, hctx, hpath⟩ := hs.registered hfind
      exact ⟨fun _ => .inl hnow, fun _ => .inl ⟨id, c, hnow, hctx, hpath⟩⟩
    · have hother : ¬w.Prunes path turn := by
        rintro ⟨k, c, hend, hctx, hpath⟩
        exact hnow (hc.pruned_registered hs hfind ⟨c, hctx, hpath⟩ hend)
      have hlater := ih hw' (hc.sound hs) (hc.registration_kept hnow hfind)
      simp [hother, hnow, hlater]

variable {modules : List (String × List Action)} {turns : List Turn}

theorem creates_registers {w : World} {path : String} {turn : Turn} (h : w.Creates path turn) :
    (w.turn turn).registry.find? path = some (w.registry.create path).1 := by
  rw [h.registry]
  exact Registry.find?_created w.registry path

theorem changes_since (modules : List (String × List Action)) (before since : List Turn)
    (turn : Turn) :
    let u := ((initial modules).after before).turn turn
    u.WellStacked ∧ Sound u.scene ∧
      Changes u.scene (u.history since)
        ((initial modules).after (before ++ turn :: since)).scene := by
  intro u
  have hstacked : u.WellStacked :=
    (turn_changes _ turn (after_wellStacked modules before)).2
  have hsound : Sound u.scene := by
    have hrun := run_sound modules (before ++ [turn])
    rwa [after_append] at hrun
  refine ⟨hstacked, hsound, ?_⟩
  rw [after_append]
  exact history_changes u since hstacked

/-- A context that was handed out is still registered unless a prune of its path was executed. -/
theorem registered_since {before since : List Turn} {path : String} {create : Turn}
    (h : ((initial modules).after before).Creates path create) :
    let v := (initial modules).after before
    (((initial modules).after (before ++ create :: since)).registry.find? path =
      some (v.registry.create path).1 ↔ ¬(v.turn create).PrunedIn path since) := by
  intro v
  obtain ⟨hstacked, hsound, hchanges⟩ := changes_since modules before since create
  have hfound := creates_registers h
  rw [prunedIn_iff hstacked hsound hfound]
  refine ⟨fun hstill hended => ?_, fun hnot => hchanges.registration_kept hnot hfound⟩
  exact (hchanges.forgotten hsound hended).2 ⟨path, hstill⟩

theorem createdSince_iff {path : String} : (initial modules).CreatedSince path turns ↔
    ∃ id, ((initial modules).after turns).registry.find? path = some id := by
  constructor
  · rintro ⟨before, create, since, rfl, hcreates, hnot⟩
    exact ⟨_, (registered_since hcreates).mpr hnot⟩
  · induction turns using List.reverseRecOn with
    | nil => simp [after, initial, Registry.find?]
    | append_singleton turns turn ih =>
      rintro ⟨id, hfind⟩
      have hsplit := after_append (initial modules) turns [turn]
      by_cases hcreates : ((initial modules).after turns).Creates path turn
      · exact ⟨turns, turn, [], rfl, hcreates, by simp [PrunedIn]⟩
      · -- a turn that does not create the path finds it registered
        obtain ⟨hc, -⟩ := turn_changes _ turn (after_wellStacked modules turns)
        have hmade : ∀ new, .made new path ∉ ((initial modules).after turns).happenings turn :=
          fun new hmem => hcreates (creates_of_made hmem)
        have hbefore := hc.registered_before (run_sound modules turns) hmade (hsplit ▸ hfind)
        obtain ⟨before, create, since, rfl, hfirst, hnot⟩ := ih ⟨id, hbefore⟩
        refine ⟨before, create, since ++ [turn], by simp, hfirst, ?_⟩
        have hsame := (registered_since hfirst).mpr hnot
        obtain rfl := Option.some.inj (hsame.symm.trans hbefore)
        exact (registered_since hfirst).mp (by simpa using hfind)

theorem handed_out_again {before since : List Turn} {path : String} {create turn : Turn}
    (hturns : turns = before ++ create :: since)
    (hfirst : ((initial modules).after before).Creates path create)
    (hcreates : ((initial modules).after turns).Creates path turn) :
    let v := (initial modules).after before
    let w := (initial modules).after turns
    let id := (w.registry.create path).1
    (id = (v.registry.create path).1 ↔ ¬(v.turn create).PrunedIn path since) ∧
    (id = (v.registry.create path).1 → .wrote id ∉ (v.turn create).history since →
      ((w.turn turn).registry.context? id).map Context.data =
        ((v.turn create).registry.context? id).map Context.data) := by
  intro v w id
  subst hturns
  obtain ⟨-, hsound, hchanges⟩ := changes_since modules before since create
  obtain ⟨c, hc, -⟩ := hsound.registered (creates_registers hfirst)
  obtain ⟨d, hd, -⟩ := hchanges.context_kept hsound ⟨c, hc, rfl⟩
  have hagain : id = (v.registry.create path).1 ↔ w.registry.find? path = some _ :=
    Registry.create_eq_iff hd
  refine ⟨hagain.trans (registered_since hfirst), fun hsame hwrote => ?_⟩
  obtain ⟨-, hmodified⟩ := Registry.create_of_some (hagain.mp hsame)
  rw [hsame] at hwrote ⊢
  calc ((w.turn turn).registry.context? _).map Context.data
      = ((w.registry.modify _ Context.handOut).context? _).map Context.data := by
        rw [hcreates.registry, hmodified]
    _ = (w.registry.context? (v.registry.create path).1).map Context.data :=
        Registry.map_context?_modify _ _ _ fun _ => rfl
    _ = some c.data := hchanges.data_kept hsound hc hwrote
    _ = ((v.turn create).registry.context? _).map Context.data :=
        (congrArg (Option.map Context.data) hc).symm

/-- Whatever is asked of contexts in between, the creation of a path is given the same context as
any creation before, exactly if no prune of the path has been executed since, with the data that it
has. A context that is given again has lost its accepting callbacks and nothing else; a new one has
a number that no context had, and is empty. The paths that are listed are, in strict order, those
that were created since their last prune was executed. -/
theorem contexts_renewed (modules : List (String × List Action)) (turns : List Turn) :
    let w := (initial modules).after turns
    (w.registry.paths.Pairwise (· < ·) ∧
      ∀ path, path ∈ w.registry.paths ↔ (initial modules).CreatedSince path turns) ∧
    ∀ turn path, w.Creates path turn →
      let id := (w.registry.create path).1
      let r := (w.turn turn).registry
      (∀ before create since, turns = before ++ create :: since →
        ((initial modules).after before).Creates path create →
        let v := (initial modules).after before
        (id = (v.registry.create path).1 ↔ ¬(v.turn create).PrunedIn path since) ∧
        (id = (v.registry.create path).1 → .wrote id ∉ (v.turn create).history since →
          (r.context? id).map Context.data =
            ((v.turn create).registry.context? id).map Context.data)) ∧
      ((initial modules).CreatedSince path turns → ∃ c, w.registry.context? id = some c ∧
        c.path = path ∧
        r.context? id = some { c with accepts := [], generation := c.generation + 1 }) ∧
      (¬(initial modules).CreatedSince path turns → w.registry.context? id = none ∧
        r.context? id =
          some { path, accepts := [], disposes := [], selfAccepted := false, data := {} }) := by
  intro w
  have hsound : Sound w.scene := run_sound modules turns
  refine ⟨⟨Registry.paths_sorted hsound.distinct, fun path => ?_⟩,
    fun turn path hcreates => ?_⟩
  · rw [Registry.mem_paths, createdSince_iff]
  intro id r
  have hr : r = (w.registry.create path).2.1 := hcreates.registry
  refine ⟨fun before create since hturns hfirst => ?_, fun hlive => ?_, fun hdead => ?_⟩
  · exact handed_out_again hturns hfirst hcreates
  · obtain ⟨k, hfind⟩ := createdSince_iff.mp hlive
    obtain ⟨hk, hmodified⟩ := Registry.create_of_some hfind
    obtain rfl : id = k := hk
    obtain ⟨c, hc, hpath⟩ := hsound.registered hfind
    refine ⟨c, hc, hpath, ?_⟩
    rw [hr, hmodified]
    exact Registry.context?_modify_self hc _
  · have hnone : w.registry.find? path = none := by
      rw [createdSince_iff, ← Option.isSome_iff_exists] at hdead
      simpa using hdead
    have hid : id = w.registry.contexts.length := by simp [id, Registry.create, hnone]
    refine ⟨hid ▸ List.getElem?_eq_none (Nat.le_refl _), ?_⟩
    rw [hr, Registry.context?_create hnone, if_pos hid]

def moduleLoaded : List Turn :=
  [.operate (.effect (.create "/p" (some "p"))), .operate (.effect (.set (some "p") "k" .null)),
    .operate (.effect (.accept "p" {})), .operate (.effect (.dispose "p" {})),
    .operate (.effect (.acceptSelf "p"))]

def modulePruned : List Turn :=
  moduleLoaded ++ Turn.operate (.start (.prune "/p")) :: List.replicate 5 (.step 0)

theorem contexts_renewed_modulePruned :
    let create : Turn := .operate (.effect (.create "/p" none))
    let w := (initial []).after moduleLoaded
    let w' := (initial []).after modulePruned
    (initial []).CreatedSince "/p" moduleLoaded ∧ "/p" ∈ w.registry.paths ∧
    (w.registry.create "/p").1 = 0 ∧
    (w.turn create).registry.context? 0 =
      some ⟨"/p", [], [{}], true, ⟨[("k", .null)]⟩, 1, false, []⟩ ∧
    ¬(initial []).CreatedSince "/p" modulePruned ∧ "/p" ∉ w'.registry.paths ∧
    (w'.registry.create "/p").1 ≠ 0 ∧ w'.registry.context? 1 = none ∧
    (w'.turn create).registry.context? 1 = some { path := "/p" } := by
  intro create w w'
  let first : Turn := .operate (.effect (.create "/p" (some "p")))
  have hlive : (initial []).CreatedSince "/p" moduleLoaded := createdSince_iff.mpr ⟨0, rfl⟩
  have hdead : ¬(initial []).CreatedSince "/p" modulePruned := by
    have hnone : w'.registry.find? "/p" = none := rfl
    rw [createdSince_iff, hnone]
    simp
  have hid : (w.registry.create "/p").1 = 0 := rfl
  have hid' : (w'.registry.create "/p").1 = 1 := rfl
  have hctx : w.registry.context? 0 =
    some ⟨"/p", [{}], [{}], true, ⟨[("k", .null)]⟩, 0, false, []⟩ := rfl
  obtain ⟨⟨-, hlisted⟩, hreused⟩ := contexts_renewed [] moduleLoaded
  obtain ⟨⟨-, hlistedThen⟩, hrenewed⟩ := contexts_renewed [] modulePruned
  obtain ⟨c, hc, -, hagain⟩ := (hreused create "/p" rfl).2.1 hlive
  obtain ⟨hother, -, hnew⟩ := hrenewed create "/p" rfl
  obtain ⟨hunknown, hempty⟩ := hnew hdead
  rw [hid] at hc hagain
  rw [hid'] at hunknown hempty
  rw [hctx, Option.some.injEq] at hc
  subst hc
  -- the context of the first creation was pruned since
  have hpruned : (((initial []).after []).turn first).PrunedIn "/p" (modulePruned.drop 1) := by
    obtain ⟨hstacked, hsound, -⟩ := changes_since [] [] (modulePruned.drop 1) first
    have hfind : (((initial []).after []).turn first).registry.find? "/p" = some 0 := rfl
    have hhistory : (((initial []).after []).turn first).history (modulePruned.drop 1) =
        [.wrote 0, .accepts 0 {}, .disposes 0 {}, .marked 0, .asked 0 .prune, .begun 0 .prune,
          .called 0 .dispose {} none, .returned 0 .dispose, .ended 0 .prune] := by cbv
    rw [prunedIn_iff hstacked hsound hfind, hhistory]
    simp
  have hdiffers := (hother [] first (modulePruned.drop 1) rfl rfl).1
  have hid₀ : (((initial []).after []).registry.create "/p").1 = 0 := rfl
  rw [hid₀] at hdiffers
  exact ⟨hlive, (hlisted "/p").mpr hlive, hid, hagain, hdead,
    fun hmem => hdead ((hlistedThen "/p").mp hmem), fun heq => hdiffers.mp heq hpruned,
    hunknown, hempty⟩

end World

end ModuleHost.Hot
