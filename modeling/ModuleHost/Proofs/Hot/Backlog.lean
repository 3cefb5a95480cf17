import ModuleHost.Proofs.Hot.Requests
import ModuleHost.Proofs.Hot.Succession

/-! What becomes of the requests behind a sequence that is dropped with its task. They stay in the
queue, but nothing runs them: the next request begins at once, and they are run behind it. -/

namespace ModuleHost.Hot

open ModuleHost.Json

/-- Jobs wait at a context, but no sequence holds it. -/
structure Left (id : Nat) (queue : List (Job Value)) (σ : Scene) : Prop where
  context : ∃ c, σ.registry.context? id = some c ∧ c.queue = queue
  registered : Registered σ.registry id
  flight : flightsOf σ.flights id = []

variable {σ τ : Scene} {h : Happening} {hs : List Happening} {id : Nat} {queue : List (Job Value)}
  {job : Job Value}

section

variable {r : Contexts} {L A B : List Flight}

theorem Left.modify (hv : Left id queue ⟨r, L⟩)
    {f : Context (Callback Action) Value → Context (Callback Action) Value}
    (hf : ∀ c, (f c).queue = c.queue) : Left id queue ⟨r.modify id f, L⟩ := by
  obtain ⟨c, hc, hq⟩ := hv.context
  exact ⟨⟨f c, Registry.context?_modify_self hc f, (hf c).trans hq⟩, hv.registered, hv.flight⟩

theorem Left.not_held {f : Flight} (hv : Left id queue ⟨r, A ++ f :: B⟩) (hf : f.context = id) :
    False := by
  have hnone := hv.flight
  simp [flightsOf, hf] at hnone

end

theorem Left.agree (hv : Left id queue σ) (h : Agree id σ τ) : Left id queue τ where
  context := h.context ▸ hv.context
  registered := (exists_congr h.registered).mpr hv.registered
  flight := h.flights.trans hv.flight

theorem Change.left_self (hc : Change σ h τ) (hv : Left h.context queue σ)
    (hasked : h.request? h.context = none) :
    Left h.context queue τ ∧ h.mark? h.context = none := by
  cases hc with
  | made path hf =>
    obtain ⟨c, hctx, -⟩ := hv.context
    exact absurd (Registry.context?_lt hctx) (Nat.lt_irrefl _)
  | reused hf => exact ⟨hv.modify fun _ => rfl, rfl⟩
  | accepts j callback => exact ⟨hv.modify fun _ => rfl, rfl⟩
  | disposes j callback => exact ⟨hv.modify fun _ => rfl, rfl⟩
  | marked j => exact ⟨hv.modify fun _ => rfl, rfl⟩
  | wrote j f => exact ⟨hv.modify fun _ => rfl, rfl⟩
  | queued job hf busy => simp [Happening.request?, Happening.context] at hasked
  | granted job hf hctx free => simp [Happening.request?, Happening.context] at hasked
  | _ => exact (hv.not_held rfl).elim

theorem Change.left (hc : Change σ h τ) (hs' : Sound σ) (hv : Left id queue σ)
    (hasked : h.request? id = none) : Left id queue τ ∧ h.mark? id = none := by
  by_cases hid : h.context = id
  · subst hid
    exact hc.left_self hv hasked
  · exact ⟨hv.agree (hc.agree hs' hid), Happening.mark?_ne hid⟩

theorem Changes.left (hc : Changes σ hs τ) (h : Sound σ) (hv : Left id queue σ)
    (hasked : asked id hs = []) : Left id queue τ ∧ marks id hs = [] := by
  induction hc with
  | refl => exact ⟨hv, rfl⟩
  | @next hs _ _ last hfirst hlast ih =>
    rw [asked_snoc, List.append_eq_nil_iff, Option.toList_eq_nil_iff] at hasked
    obtain ⟨hbefore, hnone⟩ := ih hasked.1
    obtain ⟨hafter, hmark⟩ := hlast.left (hfirst.sound h) hbefore hasked.2
    exact ⟨hafter, by rw [marks_snoc, hnone, hmark]; rfl⟩

theorem Change.left_asked (hc : Change σ (.asked id job) τ) (hs' : Sound σ)
    (hv : Left id queue σ) (hasked : asked id hs = job :: queue) (hmarks : marks id hs = []) :
    Served id hs τ := by
  obtain ⟨c, hctx, rfl⟩ := hv.context
  cases hc with
  | queued job hf busy =>
    -- a context that is busy is held by a sequence
    exact absurd hv.flight (hs'.flightsOf_of_busy hctx (busy c hctx))
  | granted job hf hctx' free =>
    have hnext := hs'.grant (f := ⟨false, ⟨id, .starting job⟩⟩) rfl hf hctx' free
    exact .running [] (Registry.context?_modify_self hctx _) hv.registered
      (Served.standing_self hnext ⟨false, ⟨id, .starting job⟩⟩ rfl) (by simp) hasked hmarks

theorem Happening.eq_asked {h : Happening} (hr : h.request? id = some job) : h = .asked id job := by
  cases h with
  | asked j other =>
    rw [request?] at hr
    split at hr
    · rename_i hj
      rw [hj, Option.some.inj hr]
    · cases hr
  | _ => cases hr

theorem asked_map_asked (id : Nat) (jobs : List (Job Value)) :
    asked id (jobs.map (.asked id)) = jobs := by
  induction jobs with
  | nil => rfl
  | cons job jobs ih => simpa [asked, Happening.request?] using ih

theorem marks_map_asked (id : Nat) (jobs : List (Job Value)) :
    marks id (jobs.map (.asked id)) = [] := by
  induction jobs with
  | nil => rfl
  | cons job jobs ih => simp [marks, Happening.mark?]

/-- From the first request on, all goes as though those that wait had been made right behind it. -/
theorem Changes.backlog (hc : Changes σ hs τ) (h : Sound σ) (hv : Left id queue σ)
    (hd : .dropped id ∉ hs) : (asked id hs = [] ∧ Left id queue τ) ∨
      ∃ job later retold, asked id hs = job :: later ∧
        asked id retold = job :: (queue ++ later) ∧ marks id retold = marks id hs ∧
        Served id retold τ := by
  induction hc with
  | refl => exact .inl ⟨rfl, hv⟩
  | @next hs σ' _ last hfirst hlast ih =>
    rw [List.mem_append, List.mem_singleton, not_or] at hd
    have hsound := hfirst.sound h
    rw [asked_snoc, marks_snoc]
    rcases ih hd.1 with ⟨hnone, hleft⟩ | ⟨job, later, retold, hasked, hall, hmarks, hserved⟩
    · obtain ⟨-, hmarks⟩ := hfirst.left h hv hnone
      cases hr : last.request? id with
      | none =>
        obtain ⟨hafter, -⟩ := hlast.left hsound hleft hr
        exact .inl ⟨by rw [hnone]; rfl, hafter⟩
      | some job =>
        obtain rfl := Happening.eq_asked hr
        -- told anew, those that wait are asked for right behind the request that begins
        refine .inr ⟨job, [], (job :: queue).map (.asked id), by rw [hnone]; rfl, ?_, ?_, ?_⟩
        · rw [asked_map_asked, List.append_nil]
        · rw [marks_map_asked, hmarks]
          rfl
        · exact hlast.left_asked hsound hleft (asked_map_asked id _) (marks_map_asked id _)
    · refine .inr ⟨job, later ++ (last.request? id).toList, retold ++ [last], ?_, ?_, ?_, ?_⟩
      · rw [hasked, List.cons_append]
      · rw [asked_snoc, hall, List.cons_append, List.append_assoc]
      · rw [marks_snoc, hmarks]
      · exact hlast.served id hsound (Ne.symm hd.2) hserved

namespace World

theorem cancel_left {modules : List (String × List Action)} {turns : List Turn} {t : Nat}
    {f : Flight} (hf : f ∈ flightsIn false ((((initial modules).after turns).tasks[t]?).getD [])) :
    let w := (initial modules).after turns
    ∃ c, w.registry.context? f.context = some c ∧
      (w.cancel t).1.registry.context? f.context = some { c with busy := false } ∧
      Left f.context c.queue (w.cancel t).1.scene := by
  intro w
  obtain ⟨c, hc, hfind, hc'⟩ := cancel_context hf
  refine ⟨c, hc, hc', ⟨_, hc', rfl⟩, ⟨c.path, ?_⟩, cancel_flightsOf (run_sound modules turns) hf⟩
  simpa [scene, cancel_registry] using hfind

/-- The requests behind a sequence that is dropped with its task stay in the queue of its context,
which is free. Nothing of them is run before the next request is made; then this request is run first
and they behind it, in order and with all that come later, until another sequence of the context is
dropped. -/
theorem requests_behind_drop (modules : List (String × List Action)) (turns : List Turn) (t : Nat)
    {f : Flight} (hf : f ∈ flightsIn false ((((initial modules).after turns).tasks[t]?).getD [])) :
    let w := (initial modules).after turns
    let w' := (w.cancel t).1
    let id := f.context
    ∃ c, w.registry.context? id = some c ∧
      w'.registry.context? id = some { c with busy := false } ∧
      ∀ more,
        (asked id (w'.history more) = [] → marks id (w'.history more) = [] ∧
          flightsOf (w'.after more).flights id = [] ∧
          ((w'.after more).registry.context? id).map Context.queue = some c.queue) ∧
        ∀ job later, asked id (w'.history more) = job :: later →
          .dropped id ∉ w'.history more →
          begun id (w'.history more) <+: upToPrune (job :: (c.queue ++ later)) ∧
          marks id (w'.history more) <+: (begun id (w'.history more)).flatMap Mark.both ∧
          (flightsOf (w'.after more).flights id = [] →
            begun id (w'.history more) = upToPrune (job :: (c.queue ++ later)) ∧
            ((w'.after more).registry.context? id).map Context.queue = some []) := by
  intro w w' id
  obtain ⟨c, hc, hc', hleft⟩ := cancel_left hf
  have hsound : Sound w'.scene := cancel_sound t
  have hstacked : w'.WellStacked := by
    have hrun := after_wellStacked modules (turns ++ [Turn.operate (.cancel t)])
    rwa [after_append] at hrun
  refine ⟨c, hc, hc', fun more => ?_⟩
  have hmore := history_changes w' more hstacked
  refine ⟨fun hnone => ?_, fun job later hasked hd => ?_⟩
  · obtain ⟨⟨⟨c₁, hc₁, hq⟩, -, hflight⟩, hmarks⟩ := hmore.left hsound hleft hnone
    exact ⟨hmarks, hflight, Option.map_eq_some_iff.mpr ⟨c₁, hc₁, hq⟩⟩
  · obtain ⟨hnone, -⟩ | ⟨job', later', retold, hasked', hall, hmarks, hserved⟩ :=
      hmore.backlog hsound hleft hd
    · rw [hnone] at hasked
      cases hasked
    obtain ⟨rfl, rfl⟩ := List.cons.inj (hasked'.symm.trans hasked)
    -- the requests told again are those left in the queue and the new ones behind the first of them
    have hbegun : begun id retold = begun id (w'.history more) := by rw [begun, hmarks, begun]
    rw [← hbegun, ← hmarks, ← hall]
    refine ⟨hserved.begun_isPrefix, hserved.marks_isPrefix, fun hfree => ?_⟩
    have hnone : standing (w'.after more).flights id = [] := by rw [standing, hfree, List.map_nil]
    refine ⟨hserved.begun_eq hnone, ?_⟩
    have hcontext := (hmore.context_kept hsound ⟨_, hc', rfl⟩)
    obtain ⟨c₁, hc₁, -⟩ := hcontext
    exact Option.map_eq_some_iff.mpr ⟨c₁, hc₁, hserved.queue_eq_nil hnone hc₁⟩

/-- The first update of a module is held up by a disposing callback while a second one is asked for.
The module notes each instance that it is given. -/
def updateHeldUp : List Turn :=
  [Turn.operate (.effect (.create "/p" (some "p"))),
    .operate (.effect (.dispose "p" { steps := [.wait "g"] })),
    .operate (.effect (.accept "p" { atOnce := [.effect .showModule] })),
    .operate (.start (.apply "/p" (some (.nat 1)))),
    .operate (.start (.apply "/p" (some (.nat 2))))] ++
    [Turn.step 0, .step 0, .step 0, .step 1]

/-- A third update is asked for and gets all the time that it needs. -/
def updateLater : List Turn :=
  .operate (.start (.apply "/p" (some (.nat 3)))) :: List.replicate 13 (.step 2)

/-- The first update is dropped with its task. -/
def updateDropped : World := (((initial []).after updateHeldUp).cancel 0).1

theorem requests_behind_drop_later :
    ⟨true, ⟨0, .disposing (.update (some (.nat 1))) []⟩⟩ ∈
      flightsIn false ((((initial []).after updateHeldUp).tasks[0]?).getD []) ∧
    asked 0 (updateDropped.history updateLater) = [.update (some (.nat 3))] ∧
    begun 0 (updateDropped.history updateLater) =
      [.update (some (.nat 3)), .update (some (.nat 2))] ∧
    ((updateDropped.after updateLater).registry.context? 0).map Context.queue = some [] := by
  have hf : ⟨true, ⟨0, .disposing (.update (some (.nat 1))) []⟩⟩ ∈
      flightsIn false ((((initial []).after updateHeldUp).tasks[0]?).getD []) :=
    List.mem_singleton_self _
  have hasked : asked 0 (updateDropped.history updateLater) = [.update (some (.nat 3))] := rfl
  have hfree : flightsOf (updateDropped.after updateLater).flights 0 = [] := rfl
  have hundropped : .dropped 0 ∉ updateDropped.history updateLater :=
    undropped_of_uncancelled updateDropped updateLater (by simp [updateLater]) 0
  obtain ⟨c, hc, -, hmore⟩ := requests_behind_drop [] updateHeldUp 0 hf
  have hqueue : c.queue = [.update (some (.nat 2))] :=
    Option.some.inj (congrArg (Option.map Context.queue) hc).symm
  obtain ⟨-, -, hall⟩ := (hmore updateLater).2 _ _ hasked hundropped
  rw [hqueue] at hall
  exact ⟨hf, hasked, hall hfree⟩

/-- Once the first update is dropped, no task is left that would run the second, and the third
overtakes it. -/
theorem queued_update_overtaken :
    let hs := (initial []).history (updateHeldUp ++ .operate (.cancel 0) :: updateLater)
    updateDropped.pending = [] ∧
    (updateDropped.registry.context? 0).map Context.queue = some [.update (some (.nat 2))] ∧
    asked 0 hs = [.update (some (.nat 1)), .update (some (.nat 2)), .update (some (.nat 3))] ∧
    begun 0 hs = [.update (some (.nat 1)), .update (some (.nat 3)), .update (some (.nat 2))] :=
  ⟨rfl, rfl, rfl, rfl⟩

end World

end ModuleHost.Hot
