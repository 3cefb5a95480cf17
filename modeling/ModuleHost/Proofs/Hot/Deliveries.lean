import Mathlib.Data.List.Permutation
import ModuleHost.Proofs.Hot.Callbacks
import ModuleHost.Proofs.Hot.Loads
import ModuleHost.Proofs.Hot.Requests
import ModuleHost.Proofs.Hot.Succession

/-! Which instances the accepting callbacks of a path are given. They come in the order in which the
updates were asked for, whatever the order in which they were loaded. -/

namespace ModuleHost.Hot

open ModuleHost.Json

def Happening.given? (id : Nat) : Happening → Option (Option Value)
  | .called j .accept _ module => if j = id then some module else none
  | _ => none

def given (id : Nat) (hs : List Happening) : List (Option Value) :=
  hs.filterMap (Happening.given? id)

def Job.instance? : Job Value → Option (Option Value)
  | .update module => some module
  | .prune => none

def Act.given? : Act → Option (Option Value)
  | .call .accept _ module => some module
  | _ => none

def Course.given (c : Course) : List (Option Value) := c.acts.filterMap Act.given?

/-- What a sequence is to give: an instance and the number of callbacks. -/
def Course.share (c : Course) : Option (Option Value × Nat) :=
  c.job.instance?.map fun module => (module, (c.accepts.getD []).length)

def Account.given (a : Account) : List (Option Value) := a.courses.reverse.flatMap Course.given

def Account.jobs (a : Account) : List (Job Value) := a.courses.reverse.map Course.job

theorem Happening.given?_ne {h : Happening} {id : Nat} (hne : h.context ≠ id) :
    h.given? id = none := by
  cases h with
  | called j phase callback module =>
    cases phase with
    | dispose => rfl
    | accept => exact if_neg hne
  | _ => rfl

theorem given_snoc (id : Nat) (hs : List Happening) (h : Happening) :
    given id (hs ++ [h]) = given id hs ++ (h.given? id).toList := filterMap_snoc _ hs h

theorem begun_snoc (id : Nat) (hs : List Happening) (h : Happening) :
    begun id (hs ++ [h]) = begun id hs ++ ((h.mark? id).bind Mark.begun?).toList := by
  rw [begun, marks_snoc, List.filterMap_append]
  cases hm : h.mark? id with
  | none => rfl
  | some mark => cases mark <;> rfl

namespace Account

variable {a : Account}

/-- A happening may be entered in the account of its context: a new context has no account yet, and
only sequences call. -/
def Due (a : Account) : Happening → Prop
  | .made .. => a.courses = []
  | .called .. => a.courses ≠ []
  | _ => True

theorem given_note {h : Happening} (hdue : a.Due h) :
    (a.note h).given = a.given ++ (h.given? h.context).toList := by
  cases h with
  | made id path =>
    have hnil : a.courses = [] := hdue
    simp [note, given, hnil, Happening.given?]
  | called id phase callback module =>
    obtain ⟨course, older, hcourses⟩ := List.exists_cons_of_ne_nil hdue
    cases phase <;>
      simp [note, act, given, hcourses, Course.given, Act.given?, Happening.given?,
        Happening.context]
  | begun id job => simp [note, given, Course.given, Happening.given?]
  | _ =>
    cases hcourses : a.courses <;>
      simp [note, act, given, hcourses, Course.given, Act.given?, Happening.given?]

theorem jobs_note {h : Happening} (hdue : a.Due h) :
    (a.note h).jobs = a.jobs ++ ((h.mark? h.context).bind Mark.begun?).toList := by
  cases h with
  | made id path =>
    have hnil : a.courses = [] := hdue
    simp [note, jobs, hnil, Happening.mark?]
  | begun id job => simp [note, jobs, Happening.mark?, Happening.context, Mark.begun?]
  | called id phase callback module =>
    obtain ⟨course, older, hcourses⟩ := List.exists_cons_of_ne_nil hdue
    cases phase <;> simp [note, act, jobs, hcourses, Happening.mark?]
  | _ =>
    cases hcourses : a.courses <;>
      simp [note, act, jobs, hcourses, Happening.mark?, Happening.context, Mark.begun?]

end Account

theorem Followed.courses_ne_nil {id : Nat} {a : Account} {r : Contexts} {A B : List Flight}
    {calling : Bool} {stage : Stage (Callback Action) Value}
    (hv : Followed id a ⟨r, A ++ ⟨calling, ⟨id, stage⟩⟩ :: B⟩)
    (hs : Sound ⟨r, A ++ ⟨calling, ⟨id, stage⟩⟩ :: B⟩) (hstage : ∀ job, stage ≠ .starting job) :
    a.courses ≠ [] := by
  have hself : flightsOf (A ++ ⟨calling, ⟨id, stage⟩⟩ :: B) id = [⟨calling, ⟨id, stage⟩⟩] :=
    hs.flightsOf_self ⟨calling, ⟨id, stage⟩⟩ rfl
  -- a context that rests may have no course, but all that can hold it is a sequence at its start
  cases hv with
  | unknown hc flight => simp [hself] at flight
  | resting hc flight =>
    rcases flight with hnone | ⟨job, hstarting⟩
    · simp [hself] at hnone
    · obtain ⟨-, rfl⟩ : calling = false ∧ stage = .starting job := by simpa [hself] using hstarting
      exact absurd rfl (hstage job)
  | disposing course older calling job left hc flight disposes registered accepts courses =>
    exact courses ▸ List.cons_ne_nil course older
  | accepting course older calling module generation taken left hc flight disposes registered
      reached accepts courses => exact courses ▸ List.cons_ne_nil course older

theorem Change.due {σ τ : Scene} {h : Happening} {a : Account} (hc : Change σ h τ)
    (hs : Sound σ) (hv : Followed h.context a σ) : a.Due h := by
  cases hc with
  | made path hf => exact hv.fresh.2
  | calledDispose id job callback left => exact hv.courses_ne_nil hs nofun
  | calledAccept id module generation taken callback left => exact hv.courses_ne_nil hs nofun
  | _ => trivial

theorem Changes.accounted {σ τ : Scene} {hs : List Happening} (id : Nat) (hc : Changes σ hs τ)
    (h : Sound σ) (hd : ∀ id, .dropped id ∉ hs) (hv : Followed id {} σ) :
    (account id hs).given = given id hs ∧ (account id hs).jobs = begun id hs := by
  induction hc with
  | refl => exact ⟨rfl, rfl⟩
  | @next hs τ υ last hfirst hlast ih =>
    have hd' := fun id hmem => hd id (List.mem_append_left _ hmem)
    obtain ⟨hgiven, hjobs⟩ := ih hd'
    rw [given_snoc, begun_snoc, ← hgiven, ← hjobs]
    by_cases hid : last.context = id
    · subst hid
      have hdue := hlast.due (hfirst.sound h) (hfirst.followed _ h hd' hv)
      rw [account_snoc_self]
      exact ⟨Account.given_note hdue, Account.jobs_note hdue⟩
    · rw [account_snoc_ne hs hid, Happening.given?_ne hid, Happening.mark?_ne hid]
      simp

theorem given_rounds_dispose (callbacks : List (Callback Action)) :
    (rounds .dispose none callbacks).filterMap Act.given? = [] := by
  simp [rounds, List.filterMap_flatMap, Act.given?]

theorem given_rounds_accept (module : Option Value) (callbacks : List (Callback Action)) :
    (rounds .accept module callbacks).filterMap Act.given? =
      List.replicate callbacks.length module := by
  induction callbacks with
  | nil => rfl
  | cons callback callbacks ih =>
    rw [List.length_cons, List.replicate_succ, ← ih]
    rfl

theorem Course.given_plan (c : Course) : c.plan.filterMap Act.given? =
    c.job.instance?.toList.flatMap (List.replicate (c.accepts.getD []).length) := by
  cases hjob : c.job with
  | prune => simp [Course.plan, hjob, given_rounds_dispose, Job.instance?]
  | update module =>
    have hturn : Act.given? .turn = none := rfl
    simp only [Course.plan, hjob, List.filterMap_append, given_rounds_dispose, List.nil_append,
      List.filterMap_cons_none hturn, given_rounds_accept]
    simp [Job.instance?]

theorem Course.given_eq {c : Course} (h : c.acts <+: c.plan) : ∃ n,
    c.given = c.job.instance?.toList.flatMap (List.replicate n) ∧
    (c.acts = c.plan → n = (c.accepts.getD []).length) := by
  by_cases hdone : c.acts = c.plan
  · exact ⟨_, by rw [Course.given, hdone, c.given_plan], fun _ => rfl⟩
  · -- a sequence under way may stop after any of its calls
    have hgiven : c.given <+: c.plan.filterMap Act.given? := h.filterMap _
    rw [c.given_plan] at hgiven
    refine ⟨c.given.length, ?_, fun heq => absurd heq hdone⟩
    cases hjob : c.job.instance? with
    | none => simpa [hjob] using hgiven
    | some module =>
      have hreplicate : c.given <+: List.replicate (c.accepts.getD []).length module := by
        simpa [hjob] using hgiven
      simpa using (List.prefix_replicate_iff.mp hreplicate).2

theorem given_reading : Reading Happening.given? where
  about := Happening.given?_ne
  registered := by
    intro σ h τ hc hs hsome
    cases hc with
    | calledAccept id module generation taken callback left =>
      obtain ⟨-, c, -, -, hfind⟩ := hs.held_once
      exact ⟨c.path, hfind⟩
    | _ => exact absurd rfl hsome

theorem request_reading : Reading Happening.request? where
  about := Happening.request?_ne
  registered := by
    intro σ h τ hc hs hsome
    cases hc with
    | queued job hf busy => exact ⟨_, hf⟩
    | granted job hf hctx free => exact ⟨_, hf⟩
    | _ => exact absurd rfl hsome

/-- The instances that the accepting callbacks of a path were called with, on any of its
contexts. -/
def instancesFor (path : String) (hs : List Happening) : List (Option Value) :=
  along Happening.given? path hs

/-- The instances of the updates that were asked for and found the path registered. -/
def updatesFor (path : String) (hs : List Happening) : List (Option Value) :=
  (along Happening.request? path hs).filterMap Job.instance?

def spread (runs : List (Option Value × Nat)) : List (Option Value) :=
  runs.flatMap fun r => List.replicate r.2 r.1

theorem mem_of_mem_spread {runs : List (Option Value × Nat)} {module : Option Value}
    (h : module ∈ spread runs) : module ∈ runs.map Prod.fst := by
  obtain ⟨r, hr, hmem⟩ := List.mem_flatMap.mp h
  exact List.mem_map.mpr ⟨r, hr, (List.eq_of_mem_replicate hmem).symm⟩

theorem spread_pairwise {R : Option Value → Option Value → Prop} (hR : ∀ m, R m m)
    {runs : List (Option Value × Nat)} (h : (runs.map Prod.fst).Pairwise R) :
    (spread runs).Pairwise R := by
  refine List.pairwise_flatMap.mpr ⟨fun r _ => ?_, ?_⟩
  · exact List.pairwise_replicate.mpr (.inr (hR r.1))
  · refine (List.pairwise_map.mp h).imp fun {r s} hrs x hx y hy => ?_
    rw [List.eq_of_mem_replicate hx, List.eq_of_mem_replicate hy]
    exact hrs

theorem given_spread (courses : List Course) (h : ∀ c ∈ courses, c.acts <+: c.plan) : ∃ runs,
    courses.flatMap Course.given = spread runs ∧
    runs.map Prod.fst = (courses.map Course.job).filterMap Job.instance? ∧
    ((∀ c ∈ courses, c.acts = c.plan) → runs = courses.filterMap Course.share) := by
  induction courses with
  | nil => exact ⟨[], rfl, rfl, fun _ => rfl⟩
  | cons c courses ih =>
    obtain ⟨n, hn, hall⟩ := Course.given_eq (h c List.mem_cons_self)
    obtain ⟨runs, hspread, hruns, hdone⟩ := ih fun c' hmem => h c' (List.mem_cons_of_mem _ hmem)
    have hrest : (∀ c' ∈ c :: courses, c'.acts = c'.plan) →
        runs = courses.filterMap Course.share :=
      fun hplan => hdone fun c' hmem => hplan c' (List.mem_cons_of_mem _ hmem)
    cases hjob : c.job.instance? with
    | none =>
      refine ⟨runs, by simp [hn, hjob, hspread], by simp [hjob, hruns], fun hplan => ?_⟩
      simp [hrest hplan, Course.share, hjob]
    | some module =>
      refine ⟨(module, n) :: runs, ?_, by simp [hjob, hruns], fun hplan => ?_⟩
      · rw [List.flatMap_cons, hn, hspread, hjob]
        simp [spread]
      · simp [hrest hplan, hall (hplan c List.mem_cons_self), Course.share, hjob]

namespace World

/-- A context is given the instances of the updates it was asked for, in this order and up to the
first prune, each as often as there are callbacks to give it to. Whenever no sequence is in flight,
all of them have been given, and each to all callbacks. -/
theorem given_in_order (modules : List (String × List Action)) (turns : List Turn) (id : Nat)
    (h : (initial modules).Undropped turns) :
    let w := (initial modules).after turns
    let hs := (initial modules).history turns
    ∃ runs, given id hs = spread runs ∧
      runs.map Prod.fst <+: (upToPrune (asked id hs)).filterMap Job.instance? ∧
      (flightsOf w.flights id = [] →
        runs.map Prod.fst = (upToPrune (asked id hs)).filterMap Job.instance? ∧
        runs = (account id hs).courses.reverse.filterMap Course.share) := by
  intro w hs
  have hfollowed : Followed id (account id hs) w.scene := run_followed modules turns id h
  have hserved : Served id hs w.scene := run_served modules turns id h
  obtain ⟨hgiven, hjobs⟩ := (run_changes modules turns).accounted id .empty h
    (.unknown (by simp [Registry.context?]) rfl rfl rfl)
  obtain ⟨runs, hspread, hruns, hdone⟩ := given_spread (account id hs).courses.reverse fun c hmem =>
    (courses_planned hfollowed c (List.mem_reverse.mp hmem)).1
  have hbegun : runs.map Prod.fst = (begun id hs).filterMap Job.instance? :=
    hruns.trans (congrArg (List.filterMap Job.instance?) hjobs)
  refine ⟨runs, hgiven.symm.trans hspread, hbegun ▸ hserved.begun_isPrefix.filterMap _,
    fun hnone => ⟨?_, hdone fun c hmem => ?_⟩⟩
  · rw [hbegun, hserved.begun_eq (congrArg (List.map Flight.standing) hnone)]
  · have hcourse := List.mem_reverse.mp hmem
    exact (courses_planned hfollowed c hcourse).2 (courses_ended hfollowed hnone c hcourse)

/-- The contexts of a path are given instances one context after the other, and each the instances
of the updates it was asked for, in this order and up to the first prune, each as often as there are
callbacks to give it to. Whenever no sequence of a context is in flight, it has been given all of
them, and each was given to all callbacks. The loads of a path are numbered in the order in which
they begin; if the updates are asked for in this order, or in any other order of instances, then the
callbacks are given the instances in the same order. -/
theorem instances_in_order (modules : List (String × List Action)) (turns : List Turn)
    (path : String) (h : (initial modules).Undropped turns) :
    let w := (initial modules).after turns
    let hs := (initial modules).history turns
    (∃ runs : Nat → List (Option Value × Nat),
      instancesFor path hs = (contextsOf path hs).flatMap (fun id => spread (runs id)) ∧
      ∀ id, (runs id).map Prod.fst <+: (upToPrune (asked id hs)).filterMap Job.instance? ∧
        (flightsOf w.flights id = [] →
          (runs id).map Prod.fst = (upToPrune (asked id hs)).filterMap Job.instance? ∧
          runs id = (account id hs).courses.reverse.filterMap Course.share)) ∧
    (∀ R : Option Value → Option Value → Prop, (∀ m, R m m) →
      (updatesFor path hs).Pairwise R → (instancesFor path hs).Pairwise R) ∧
    ∃ n, w.loads path = List.range' 1 n := by
  intro w hs
  have hchanges := run_changes modules turns
  -- what holds of each context is put together along the contexts of the path
  choose runs hgiven hserved hrest using fun id => given_in_order modules turns id h
  have hinstances : instancesFor path hs =
      (contextsOf path hs).flatMap fun id => spread (runs id) :=
    (hchanges.along_eq given_reading path).trans (List.flatMap_congr fun id _ => hgiven id)
  have hupdates : updatesFor path hs =
      (contextsOf path hs).flatMap fun id => (asked id hs).filterMap Job.instance? := by
    rw [updatesFor, hchanges.along_eq request_reading path, byContext, List.filterMap_flatMap]
    rfl
  have hasked : ∀ id, (runs id).map Prod.fst <+: (asked id hs).filterMap Job.instance? :=
    fun id => (hserved id).trans ((upToPrune_isPrefix _).filterMap _)
  refine ⟨⟨runs, hinstances, fun id => ⟨hserved id, hrest id⟩⟩, fun R hR hordered => ?_,
    loads_numbered modules turns path⟩
  rw [hupdates, List.pairwise_flatMap] at hordered
  rw [hinstances, List.pairwise_flatMap]
  obtain ⟨heach, hacross⟩ := hordered
  refine ⟨fun id hmem => ?_, hacross.imp fun {a b} hab x hx y hy => ?_⟩
  · exact spread_pairwise hR ((heach id hmem).sublist (hasked id).sublist)
  · exact hab x ((hasked a).subset (mem_of_mem_spread hx)) y
      ((hasked b).subset (mem_of_mem_spread hy))

def reloadedTwice : List Turn := List.flatten
  [[.operate (.effect (.create "/p" (some "p"))), .operate (.effect (.accept "p" {})),
      .operate (.effect (.accept "p" {})), .operate (.start (.event (.update ["/p"]))),
      .operate (.start (.event (.update ["/p"])))],
    List.replicate 11 (.step 0), List.replicate 11 (.step 1)]

theorem instances_in_order_reloadedTwice :
    let modules : List (String × List Action) := [("/p", [])]
    let hs := (initial modules).history reloadedTwice
    let first := some (loadedModule "/p" 1)
    let second := some (loadedModule "/p" 2)
    (initial modules).Undropped reloadedTwice ∧
    instancesFor "/p" hs = [first, first, second, second] ∧
    (instancesFor "/p" hs).Pairwise (fun earlier later => ¬(earlier = second ∧ later = first)) ∧
    ∃ n, ((initial modules).after reloadedTwice).loads "/p" = List.range' 1 n := by
  intro modules hs first second
  have hdrop : (initial modules).Undropped reloadedTwice :=
    undropped_of_uncancelled _ _ (by simp [reloadedTwice])
  obtain ⟨-, hordered, hloads⟩ := instances_in_order modules reloadedTwice "/p" hdrop
  have hne : first ≠ second := by simp [first, second, loadedModule, Value.nat]
  have hinstances : instancesFor "/p" hs = [first, first, second, second] := by cbv
  have hupdates : updatesFor "/p" hs = [first, second] := by cbv
  refine ⟨hdrop, hinstances, hordered _ (fun m hm => hne (hm.2.symm.trans hm.1)) ?_, hloads⟩
  rw [hupdates]
  simp [hne]

/-- The first load of a module is held up until the second, which another event has begun
meanwhile, has been applied. -/
def overtaken : List Turn := List.flatten
  [[.operate (.effect (.create "/q" none)), .operate (.effect (.create "/p" (some "p"))),
      .operate (.effect (.accept "p" {})), .operate (.start (.event (.update ["/q", "/p"]))),
      .step 0, .operate (.start (.event (.update ["/p"]))), .step 1,
      .operate (.effect (.openGate "q"))],
    List.replicate 7 (.step 0), [.operate (.effect (.openGate "p"))],
    List.replicate 9 (.step 0), List.replicate 9 (.step 1)]

/-- Updates are queued only when their loads are back, so that one load can overtake another: the
callbacks are given the second instance and then the first. -/
theorem instances_overtaken :
    let modules : List (String × List Action) := [("/p", [.wait "p"]), ("/q", [.wait "q"])]
    (initial modules).Undropped overtaken ∧
    ((initial modules).after overtaken).loads "/p" = [1, 2] ∧
    instancesFor "/p" ((initial modules).history overtaken) =
      [some (loadedModule "/p" 2), some (loadedModule "/p" 1)] := by
  refine ⟨undropped_of_uncancelled _ _ (by simp [overtaken]), ?_, ?_⟩
  · cbv
  · cbv

end World

end ModuleHost.Hot
