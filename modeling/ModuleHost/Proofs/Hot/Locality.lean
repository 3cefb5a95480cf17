import ModuleHost.Proofs.Hot.Exclusion

/-! Every change is about one context: the others stay as they are, keep their registration, and are
held by the same sequences. -/

namespace ModuleHost.Hot

open ModuleHost.Json

/-- The context that a happening is about. -/
def Happening.context : Happening → Nat
  | .made id _ | .reused id | .accepts id _ | .disposes id _ | .marked id | .wrote id
  | .asked id _ | .begun id _ | .called id _ _ _ | .returned id _ | .turned id | .ended id _
  | .dropped id => id

def flightsOf (flights : List Flight) (id : Nat) : List Flight :=
  flights.filter fun f => f.context = id

variable {r : Contexts} {L A B : List Flight} {f : Flight} {id : Nat}

theorem flightsOf_append : flightsOf (A ++ B) id = flightsOf A id ++ flightsOf B id :=
  List.filter_append ..

theorem flightsOf_middle (h : f.context ≠ id) :
    flightsOf (A ++ f :: B) id = flightsOf (A ++ B) id := by
  simp [flightsOf, h]

theorem flightsOf_replace {g : Flight} (hf : f.context ≠ id) (hg : g.context ≠ id) :
    flightsOf (A ++ g :: B) id = flightsOf (A ++ f :: B) id := by
  rw [flightsOf_middle hf, flightsOf_middle hg]

theorem flightsOf_eq_nil (h : id ∉ holdings L) : flightsOf L id = [] := by
  apply List.filter_eq_nil_iff.mpr
  intro f hf heq
  exact h (List.mem_map.mpr ⟨f, hf, by simpa using heq⟩)

theorem Sound.flightsOf_self (h : Sound ⟨r, A ++ f :: B⟩) (g : Flight)
    (hg : g.context = f.context) : flightsOf (A ++ g :: B) f.context = [g] := by
  have hnil := flightsOf_eq_nil h.held_once.1
  rw [flightsOf_append, List.append_eq_nil_iff] at hnil
  have hcons : flightsOf (g :: B) f.context = g :: flightsOf B f.context := by
    simp [flightsOf, hg]
  rw [flightsOf_append, hcons, hnil.1, hnil.2, List.nil_append]

theorem Sound.flightsOf_left (h : Sound ⟨r, A ++ f :: B⟩) : flightsOf (A ++ B) f.context = [] :=
  flightsOf_eq_nil h.held_once.1

theorem Sound.flightsOf_of_free (h : Sound ⟨r, L⟩) {c : Context (Callback Action) Value}
    (hc : r.context? id = some c) (free : c.busy = false) : flightsOf L id = [] := by
  have hcount := h.busy id c hc
  rw [free, if_neg Bool.false_ne_true, List.count_eq_zero] at hcount
  exact flightsOf_eq_nil hcount

theorem Sound.flightsOf_of_busy (h : Sound ⟨r, L⟩) {c : Context (Callback Action) Value}
    (hc : r.context? id = some c) (busy : c.busy = true) : flightsOf L id ≠ [] := by
  have hcount := h.busy id c hc
  rw [busy, if_pos rfl] at hcount
  have hmem : id ∈ holdings L := List.count_pos_iff.mp (by rw [hcount]; exact Nat.one_pos)
  obtain ⟨g, hg, rfl⟩ := List.mem_map.mp hmem
  intro hnil
  have hnot := List.filter_eq_nil_iff.mp hnil g hg
  simp at hnot

theorem putBack_context?_ne (s : Running) (path : String) (generation : Nat)
    (taken : List (Callback Action)) (h : s.context ≠ id) :
    (s.putBack r path generation taken).context? id = r.context? id := by
  unfold Sequence.putBack
  split
  · exact Registry.context?_modify_ne r h _
  · rfl

@[simp] theorem putBack_find? (s : Running) (path : String) (generation : Nat)
    (taken : List (Callback Action)) (p : String) :
    (s.putBack r path generation taken).find? p = r.find? p := by
  unfold Sequence.putBack
  split <;> rfl

theorem map_putBack {β : Type} {g : Context (Callback Action) Value → β} (s : Running)
    (r : Contexts) (path : String) (generation : Nat) (taken : List (Callback Action)) (id : Nat)
    (h : ∀ c accepts, g { c with accepts } = g c) :
    ((s.putBack r path generation taken).context? id).map g = (r.context? id).map g := by
  unfold Sequence.putBack
  split
  · refine Registry.map_context?_modify r _ id fun c => ?_
    split
    · exact h c _
    · rfl
  · rfl

theorem putBack_queue (s : Running) (r : Contexts) (path : String) (generation : Nat)
    (taken : List (Callback Action)) (id : Nat) :
    ((s.putBack r path generation taken).context? id).map Context.queue =
      (r.context? id).map Context.queue :=
  map_putBack s r path generation taken id fun _ _ => rfl

theorem map_releaseAll {β : Type} {g : Context (Callback Action) Value → β} (frames : List Frame)
    (r : Contexts) (id : Nat) (h : ∀ c busy, g { c with busy } = g c) :
    ((World.releaseAll r frames).context? id).map g = (r.context? id).map g := by
  induction frames generalizing r with
  | nil => rfl
  | cons frame below ih =>
    cases frame with
    | sequence answer s =>
      exact (ih (s.release r)).trans (Registry.map_context?_modify r _ id fun c => h c false)
    | _ => exact ih r

@[simp] theorem releaseAll_find? (frames : List Frame) (r : Contexts) (path : String) :
    (World.releaseAll r frames).find? path = r.find? path := by
  induction frames generalizing r with
  | nil => rfl
  | cons frame below ih =>
    cases frame with
    | sequence answer s => exact ih (s.release r)
    | _ => exact ih r

theorem World.cancel_registry (w : World) (t : Nat) :
    (w.cancel t).1.registry = releaseAll w.registry ((w.tasks[t]?).getD []) := by
  unfold cancel
  split
  · rename_i ht
    simp [ht]
  · rename_i hnone
    cases ht : w.tasks[t]? with
    | none => rfl
    | some frames =>
      cases frames with
      | nil => rfl
      | cons frame below => exact absurd ht (hnone frame below)

theorem Sound.putBack_context? {b : Bool} {s : Running} (h : Sound ⟨r, A ++ ⟨b, s⟩ :: B⟩)
    {c : Context (Callback Action) Value} (hc : r.context? s.context = some c) (generation : Nat)
    (taken : List (Callback Action)) :
    (s.putBack r (s.path r) generation taken).context? s.context =
      some (if c.generation = generation then { c with accepts := taken ++ c.accepts } else c) := by
  obtain ⟨-, c', hc', -, hfind⟩ := h.held_once
  obtain rfl : c = c' := Option.some.inj (hc.symm.trans hc')
  have hfound : r.find? (s.path r) = some s.context := by
    rw [World.path_of_context hc]
    exact hfind
  rw [Sequence.putBack, if_pos hfound]
  exact Registry.context?_modify_self hc _

/-- What two scenes have in common as far as one context goes. -/
structure Agree (id : Nat) (σ τ : Scene) : Prop where
  context : τ.registry.context? id = σ.registry.context? id
  registered : ∀ path, τ.registry.find? path = some id ↔ σ.registry.find? path = some id
  flights : flightsOf τ.flights id = flightsOf σ.flights id

theorem Change.agree {σ τ : Scene} {h : Happening} (hc : Change σ h τ) (hs : Sound σ)
    (hne : h.context ≠ id) : Agree id σ τ := by
  have modified : ∀ {r : Contexts} {L : List Flight} {j : Nat}
      (f : Context (Callback Action) Value → Context (Callback Action) Value), j ≠ id →
      Agree id ⟨r, L⟩ ⟨r.modify j f, L⟩ :=
    fun f hj => ⟨Registry.context?_modify_ne _ hj f, fun _ => Iff.rfl, rfl⟩
  cases hc with
  | @made r L path hf =>
    -- the new context has a number that no other has
    have hnew : r.contexts.length ≠ id := hne
    refine ⟨?_, fun p => ?_, rfl⟩
    · rw [Registry.context?_create hf, if_neg hnew.symm]
    · rw [Registry.find?_create hf]
      split
      · rename_i heq
        simpa [heq, hf] using hnew
      · exact Iff.rfl
  | reused hf => exact modified _ hne
  | accepts j callback => exact modified _ hne
  | disposes j callback => exact modified _ hne
  | marked j => exact modified _ hne
  | wrote j f => exact modified _ hne
  | queued job hf busy => exact modified _ hne
  | granted job hf hctx free =>
    exact ⟨Registry.context?_modify_ne _ hne _, fun _ => Iff.rfl, flightsOf_middle hne⟩
  | begun j job =>
    exact ⟨Registry.context?_modify_ne _ hne _, fun _ => Iff.rfl,
      flightsOf_replace hne hne⟩
  | calledDispose j job callback left =>
    exact ⟨rfl, fun _ => Iff.rfl, flightsOf_replace hne hne⟩
  | turned j module =>
    exact ⟨Registry.context?_modify_ne _ hne _, fun _ => Iff.rfl,
      flightsOf_replace hne hne⟩
  | calledAccept j module generation taken callback left =>
    exact ⟨rfl, fun _ => Iff.rfl, flightsOf_replace hne hne⟩
  | returned s =>
    exact ⟨rfl, fun _ => Iff.rfl, flightsOf_replace hne hne⟩
  | pruned s hstage =>
    -- only the entry of the pruned context leaves the registry
    have hother : s.context ≠ id := hne
    refine ⟨?_, fun p => ?_, (flightsOf_middle (f := ⟨false, s⟩) hother).symm⟩
    · simp only [Sequence.release, Registry.setBusy]
      rw [Registry.context?_modify_ne _ hother, Registry.context?_modify_ne _ hother,
        Registry.context?_unregister]
    · rw [Registry.find?_eq_some_iff (hs.distinct.sublist (List.filter_sublist.map _)),
        Registry.find?_eq_some_iff hs.distinct]
      refine Registry.mem_unregister.trans ⟨And.left, fun hmem => ⟨hmem, fun heq => ?_⟩⟩
      exact hother heq.2.symm
  | resumed s hstage hq =>
    have hother : s.context ≠ id := hne
    refine ⟨?_, fun p => ?_, flightsOf_replace hne hne⟩
    · dsimp only
      rw [Registry.context?_modify_ne _ hother, putBack_context?_ne _ _ _ _ hother]
    · simp
  | finished s hstage hq =>
    have hother : s.context ≠ id := hne
    refine ⟨?_, fun p => ?_, (flightsOf_middle (f := ⟨false, s⟩) hother).symm⟩
    · simp only [Sequence.release, Registry.setBusy]
      rw [Registry.context?_modify_ne _ hother, putBack_context?_ne _ _ _ _ hother]
    · simp [Sequence.release, Registry.setBusy]
  | dropped f =>
    exact ⟨Registry.context?_modify_ne _ hne _, fun _ => Iff.rfl, (flightsOf_middle hne).symm⟩

theorem World.mem_flights {w : World} {t : Nat}
    (hf : f ∈ flightsIn false ((w.tasks[t]?).getD [])) : f ∈ w.flights := by
  obtain ⟨A, B, hold, -⟩ := w.holdings_cancel t
  rw [hold]
  simp [hf]

theorem World.cancel_flightsOf {w : World} (h : Sound w.scene) {t : Nat}
    (hf : f ∈ flightsIn false ((w.tasks[t]?).getD [])) :
    flightsOf (w.cancel t).1.flights f.context = [] := by
  obtain ⟨A, B, hold, hnew⟩ := w.holdings_cancel t
  have hone := count_le_one h f.context
  have hpos : 0 < (holdings (flightsIn false ((w.tasks[t]?).getD []))).count f.context :=
    List.count_pos_iff.mpr (List.mem_map_of_mem hf)
  rw [hold, holdings_append, holdings_append, List.count_append, List.count_append] at hone
  apply flightsOf_eq_nil
  rw [hnew, ← List.count_eq_zero, holdings_append, List.count_append]
  omega

theorem World.cancel_context {modules : List (String × List Action)} {turns : List Turn} {t : Nat}
    (hf : f ∈ flightsIn false ((((initial modules).after turns).tasks[t]?).getD [])) :
    let w := (initial modules).after turns
    ∃ c, w.registry.context? f.context = some c ∧ w.registry.find? c.path = some f.context ∧
      (w.cancel t).1.registry.context? f.context = some { c with busy := false } := by
  intro w
  have hsound : Sound w.scene := run_sound modules turns
  obtain ⟨c, hc, -, hfind⟩ := placed_path hsound (mem_flights hf)
  have hsame := map_releaseAll (g := fun c => { c with busy := false })
    ((w.tasks[t]?).getD []) w.registry f.context fun _ _ => rfl
  rw [← cancel_registry, hc] at hsame
  obtain ⟨c', hc', hrest⟩ := Option.map_eq_some_iff.mp hsame
  have hfree : c'.busy = false := by
    by_contra hbusy
    have hsome := (cancel_sound t).flightsOf_of_busy hc' (by simpa using hbusy)
    exact hsome (cancel_flightsOf hsound hf)
  refine ⟨c, hc, hfind, ?_⟩
  rw [hc']
  cases c'
  simp only at hfree hrest
  rw [← hrest, hfree]

end ModuleHost.Hot
