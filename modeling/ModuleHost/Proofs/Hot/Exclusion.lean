import ModuleHost.Proofs.Hot.Change
import ModuleHost.Proofs.Hot.Registry

/-! A context is busy exactly while one sequence holds it, and while one does it stays registered
under its path. All of it is one invariant of scenes, which every change keeps. -/

namespace ModuleHost.Hot

open ModuleHost.Json

/-- The contexts that are held, once for every sequence that holds them. -/
def holdings (flights : List Flight) : List Nat := flights.map Flight.context

@[simp] theorem holdings_append (A B : List Flight) :
    holdings (A ++ B) = holdings A ++ holdings B := List.map_append

@[simp] theorem holdings_cons (f : Flight) (A : List Flight) :
    holdings (f :: A) = f.context :: holdings A := rfl

/-- A context is the one that is registered under its own path. -/
def Placed (r : Contexts) (id : Nat) : Prop :=
  ∃ c, r.context? id = some c ∧ r.find? c.path = some id

theorem Placed.modify {r : Contexts} {j : Nat} (h : Placed r j) (id : Nat)
    (f : Context (Callback Action) Value → Context (Callback Action) Value)
    (hp : ∀ c, (f c).path = c.path) : Placed (r.modify id f) j := by
  obtain ⟨c, hc, hfind⟩ := h
  refine ⟨_, by rw [Registry.context?_modify, hc]; rfl, ?_⟩
  dsimp only
  split
  · rw [hp c]
    exact hfind
  · exact hfind

structure Sound (σ : Scene) : Prop where
  entries : ∀ path id, (path, id) ∈ σ.registry.registered →
    ∃ c, σ.registry.context? id = some c ∧ c.path = path
  distinct : (σ.registry.registered.map Prod.fst).Nodup
  held : ∀ id ∈ holdings σ.flights, Placed σ.registry id
  busy : ∀ id c, σ.registry.context? id = some c →
    (holdings σ.flights).count id = if c.busy then 1 else 0

namespace Sound

variable {r : Contexts} {L M A B : List Flight} {f : Flight}

theorem empty : Sound ⟨{}, []⟩ where
  entries := by simp
  distinct := List.nodup_nil
  held := by simp [holdings]
  busy := by simp [Registry.context?]

theorem of_holdings (h : Sound ⟨r, L⟩) (hL : (holdings M).Perm (holdings L)) : Sound ⟨r, M⟩ where
  entries := h.entries
  distinct := h.distinct
  held := fun id hid => h.held id (hL.mem_iff.mp hid)
  busy := fun id c hc => by
    rw [hL.count_eq]
    exact h.busy id c hc

theorem registered (h : Sound ⟨r, L⟩) {path : String} {id : Nat} (hf : r.find? path = some id) :
    ∃ c, r.context? id = some c ∧ c.path = path :=
  h.entries path id (Registry.find?_mem hf)

theorem entries_modify (h : Sound ⟨r, L⟩) (id : Nat)
    (f : Context (Callback Action) Value → Context (Callback Action) Value)
    (hp : ∀ c, (f c).path = c.path) : ∀ path j, (path, j) ∈ r.registered →
      ∃ c, (r.modify id f).context? j = some c ∧ c.path = path := by
  intro path j hj
  obtain ⟨c, hc, rfl⟩ := h.entries path j hj
  refine ⟨_, by rw [Registry.context?_modify, hc]; rfl, ?_⟩
  dsimp only
  split
  · exact hp c
  · rfl

theorem modify (h : Sound ⟨r, L⟩) (id : Nat)
    (f : Context (Callback Action) Value → Context (Callback Action) Value)
    (hp : ∀ c, (f c).path = c.path) (hb : ∀ c, (f c).busy = c.busy) :
    Sound ⟨r.modify id f, L⟩ where
  entries := h.entries_modify id f hp
  distinct := h.distinct
  held := fun j hj => (h.held j hj).modify id f hp
  busy := by
    intro j c' hc'
    rw [Registry.context?_modify] at hc'
    obtain ⟨c, hc, rfl⟩ := Option.map_eq_some_iff.mp hc'
    have hsame : (if id = j then f c else c).busy = c.busy := by
      split
      · exact hb c
      · rfl
    rw [hsame]
    exact h.busy j c hc

theorem putBack (h : Sound ⟨r, L⟩) (s : Running) (path : String) (generation : Nat)
    (taken : List (Callback Action)) : Sound ⟨s.putBack r path generation taken, L⟩ := by
  unfold Sequence.putBack
  split
  · apply h.modify
    · intro c
      split <;> rfl
    · intro c
      split <;> rfl
  · exact h

theorem create (h : Sound ⟨r, L⟩) {path : String} (hf : r.find? path = none) :
    Sound ⟨(r.create path).2.1, L⟩ where
  entries := by
    intro p id hid
    rw [Registry.create_of_none hf] at hid
    rcases List.mem_cons.mp hid with heq | hid
    · obtain ⟨rfl, rfl⟩ := Prod.mk.inj heq
      exact ⟨{ path := p }, by rw [Registry.context?_create hf, if_pos rfl], rfl⟩
    · obtain ⟨c, hc, hp⟩ := h.entries p id hid
      refine ⟨c, ?_, hp⟩
      rw [Registry.context?_create hf, if_neg (Nat.ne_of_lt (Registry.context?_lt hc))]
      exact hc
  distinct := by
    rw [Registry.create_of_none hf]
    refine List.nodup_cons.mpr ⟨?_, h.distinct⟩
    intro hmem
    obtain ⟨e, he, hep⟩ := List.mem_map.mp hmem
    have hnone := (List.find?_eq_none.mp (Option.map_eq_none_iff.mp hf)) e he
    simp [hep] at hnone
  held := by
    intro id hid
    obtain ⟨c, hc, hfind⟩ := h.held id hid
    refine ⟨c, ?_, ?_⟩
    · rw [Registry.context?_create hf, if_neg (Nat.ne_of_lt (Registry.context?_lt hc))]
      exact hc
    · rw [Registry.find?_create hf, if_neg]
      · exact hfind
      · rintro rfl
        rw [hf] at hfind
        simp at hfind
  busy := by
    intro id c hc
    rw [Registry.context?_create hf] at hc
    split at hc
    · rename_i hid
      obtain rfl : { path } = c := by simpa using hc
      have hnot : id ∉ holdings L := by
        intro hmem
        obtain ⟨c', hc', -⟩ := h.held id hmem
        exact absurd (Registry.context?_lt hc') (Nat.not_lt_of_le hid.ge)
      simpa using List.count_eq_zero.mpr hnot
    · exact h.busy id c hc

theorem held_once (h : Sound ⟨r, A ++ f :: B⟩) :
    f.context ∉ holdings (A ++ B) ∧ ∃ c, r.context? f.context = some c ∧ c.busy = true ∧
      r.find? c.path = some f.context := by
  have hmem : f.context ∈ holdings (A ++ f :: B) := by simp
  obtain ⟨c, hc, hfind⟩ := h.held _ hmem
  have hcount := h.busy _ c hc
  simp only [holdings_append, holdings_cons, List.count_append, List.count_cons_self] at hcount
  have hbusy : c.busy = true := by
    by_contra hb
    rw [if_neg hb] at hcount
    omega
  rw [if_pos hbusy] at hcount
  refine ⟨?_, c, hc, hbusy, hfind⟩
  rw [← List.count_eq_zero, holdings_append, List.count_append]
  omega

theorem grant (h : Sound ⟨r, A ++ B⟩) {path : String} {id : Nat}
    {c : Context (Callback Action) Value} {f : Flight} (hs : f.context = id)
    (hf : r.find? path = some id) (hc : r.context? id = some c) (free : c.busy = false) :
    Sound ⟨r.setBusy id true, A ++ f :: B⟩ where
  entries := h.entries_modify id _ fun _ => rfl
  distinct := h.distinct
  held := by
    intro j hj
    refine Placed.modify ?_ id _ fun _ => rfl
    have hj' : j ∈ holdings (A ++ B) ∨ j = id := by
      simp only [holdings_append, holdings_cons, List.mem_append, List.mem_cons, hs] at hj ⊢
      tauto
    rcases hj' with hj | rfl
    · exact h.held j hj
    · obtain ⟨c', hc', rfl⟩ := h.registered hf
      exact ⟨c', hc', hf⟩
  busy := by
    intro j c' hc'
    rw [Registry.setBusy, Registry.context?_modify] at hc'
    obtain ⟨c₀, hc₀, rfl⟩ := Option.map_eq_some_iff.mp hc'
    have hcount := h.busy j c₀ hc₀
    simp only [holdings_append, holdings_cons, List.count_append] at hcount ⊢
    by_cases hj : id = j
    · obtain rfl : c = c₀ := by
        rw [← hj, hc] at hc₀
        simpa using hc₀
      rw [hs, hj, List.count_cons_self, if_pos rfl]
      simp only [free, Bool.false_eq_true, if_false] at hcount
      simp only [if_true]
      omega
    · rw [hs, List.count_cons_of_ne hj, if_neg hj]
      exact hcount

theorem release (h : Sound ⟨r, A ++ f :: B⟩)
    (g : Context (Callback Action) Value → Context (Callback Action) Value)
    (hp : ∀ c, (g c).path = c.path) (hb : ∀ c, (g c).busy = false) :
    Sound ⟨r.modify f.context g, A ++ B⟩ where
  entries := h.entries_modify _ g hp
  distinct := h.distinct
  held := by
    intro j hj
    refine (h.held j ?_).modify _ g hp
    simp only [holdings_append, holdings_cons, List.mem_append, List.mem_cons] at hj ⊢
    tauto
  busy := by
    intro j c' hc'
    rw [Registry.context?_modify] at hc'
    obtain ⟨c, hc, rfl⟩ := Option.map_eq_some_iff.mp hc'
    by_cases hj : f.context = j
    · rw [if_pos hj, hb c]
      exact List.count_eq_zero.mpr (hj ▸ h.held_once.1)
    · rw [if_neg hj, ← h.busy j c hc]
      simp [List.count_cons_of_ne hj]

theorem unregister (h : Sound ⟨r, L⟩) (path : String) {id : Nat} (hid : id ∉ holdings L) :
    Sound ⟨r.unregister path id, L⟩ where
  entries := fun p j hj => h.entries p j (Registry.mem_unregister.mp hj).1
  distinct := h.distinct.sublist (List.filter_sublist.map _)
  held := by
    intro j hj
    obtain ⟨c, hc, hfind⟩ := h.held j hj
    exact ⟨c, hc, Registry.find?_unregister hfind (fun heq => hid (heq ▸ hj))⟩
  busy := h.busy

end Sound

theorem Change.sound {σ τ : Scene} {h : Happening} (hc : Change σ h τ) (hs : Sound σ) :
    Sound τ := by
  cases hc with
  | made path hf => exact hs.create hf
  | reused hf => exact hs.modify _ _ (fun _ => rfl) fun _ => rfl
  | accepts id callback => exact hs.modify _ _ (fun _ => rfl) fun _ => rfl
  | disposes id callback => exact hs.modify _ _ (fun _ => rfl) fun _ => rfl
  | marked id => exact hs.modify _ _ (fun _ => rfl) fun _ => rfl
  | wrote id f => exact hs.modify _ _ (fun _ => rfl) fun _ => rfl
  | queued job hf busy => exact hs.modify _ _ (fun _ => rfl) fun _ => rfl
  | granted job hf hctx free => exact hs.grant rfl hf hctx free
  | begun id job =>
    refine Sound.of_holdings (hs.modify _ _ (fun _ => rfl) fun _ => rfl) ?_
    simp [Flight.context]
  | calledDispose id job callback left =>
    refine hs.of_holdings ?_
    simp [Flight.context]
  | turned id module =>
    refine Sound.of_holdings (hs.modify _ _ (fun _ => rfl) fun _ => rfl) ?_
    simp [Flight.context]
  | calledAccept id module generation taken callback left =>
    refine hs.of_holdings ?_
    simp [Flight.context]
  | returned s =>
    refine hs.of_holdings ?_
    simp [Flight.context]
  | @pruned r A B s hstage =>
    have hfree := hs.release (fun c => { c with queue := [], busy := false }) (fun _ => rfl)
      fun _ => rfl
    have hout := hfree.unregister (s.path r) hs.held_once.1
    -- the entry goes first, but the order does not matter for the context
    have heq : s.release ((r.unregister (s.path r) s.context).modify s.context
          fun c => { c with queue := [] }) =
        (r.modify s.context fun c => { c with queue := [], busy := false }).unregister
          (s.path r) s.context := by
      simp [Sequence.release, Registry.setBusy, Registry.modify, Registry.unregister,
        List.modify_modify_eq, Function.comp_def]
    rw [heq]
    exact hout
  | resumed s hstage hq =>
    refine Sound.of_holdings
      ((hs.putBack s _ _ _).modify _ _ (fun _ => rfl) fun _ => rfl) ?_
    simp [Flight.context]
  | finished s hstage hq =>
    exact (hs.putBack s _ _ _).release _ (fun _ => rfl) fun _ => rfl
  | dropped f => exact hs.release _ (fun _ => rfl) fun _ => rfl

theorem Changes.sound {σ τ : Scene} {hs : List Happening} (hc : Changes σ hs τ) (h : Sound σ) :
    Sound τ := by
  induction hc with
  | refl => exact h
  | next _ hlast ih => exact hlast.sound ih

namespace World

theorem run_sound (modules : List (String × List Action)) (turns : List Turn) :
    Sound ((initial modules).after turns).scene :=
  (run_changes modules turns).sound .empty

theorem path_of_context {s : Running} {r : Contexts} {c : Context (Callback Action) Value}
    (hc : r.context? s.context = some c) : s.path r = c.path := by
  simp [Sequence.path, hc]

theorem placed_path {w : World} (h : Sound w.scene) {f : Flight} (hf : f ∈ w.flights) :
    ∃ c, w.registry.context? f.context = some c ∧ f.sequence.path w.registry = c.path ∧
      w.registry.find? c.path = some f.context := by
  obtain ⟨c, hc, hfind⟩ := h.held f.context (List.mem_map_of_mem hf)
  exact ⟨c, hc, path_of_context hc, hfind⟩

theorem count_le_one {w : World} (h : Sound w.scene) (id : Nat) :
    (holdings w.flights).count id ≤ 1 := by
  by_cases hid : id ∈ holdings w.flights
  · obtain ⟨c, hc, -⟩ := h.held id hid
    have hcount := h.busy id c hc
    split at hcount
    · exact hcount.le
    · exact hcount.le.trans (Nat.zero_le 1)
  · rw [List.count_eq_zero.mpr hid]
    exact Nat.zero_le 1

theorem countP_path_le_one {w : World} (h : Sound w.scene) (path : String) :
    w.flights.countP (fun f => f.sequence.path w.registry = path) ≤ 1 := by
  by_cases hany : ∃ f ∈ w.flights, f.sequence.path w.registry = path
  · obtain ⟨f, hf, rfl⟩ := hany
    -- a path registers one context, which every sequence under it holds
    have hsame : ∀ g ∈ w.flights,
        g.sequence.path w.registry = f.sequence.path w.registry → g.context = f.context := by
      intro g hg hpath
      obtain ⟨c, -, hcp, hc⟩ := placed_path h hf
      obtain ⟨d, -, hdp, hd⟩ := placed_path h hg
      rw [← hdp, hpath, hcp, hc] at hd
      exact (Option.some.inj hd).symm
    calc w.flights.countP (fun g => g.sequence.path w.registry = f.sequence.path w.registry)
        ≤ w.flights.countP (fun g => g.context == f.context) :=
          List.countP_mono_left fun g hg hpath => by simpa using hsame g hg (by simpa using hpath)
      _ = (holdings w.flights).count f.context := by
          rw [holdings, List.count, List.countP_map]
          rfl
      _ ≤ 1 := count_le_one h f.context
  · have hzero : w.flights.countP (fun f => f.sequence.path w.registry = path) = 0 := by
      rw [List.countP_eq_zero]
      intro f hf hpath
      exact hany ⟨f, hf, by simpa using hpath⟩
    rw [hzero]
    exact Nat.zero_le 1

theorem holdings_cancel (w : World) (t : Nat) :
    ∃ A B, w.flights = A ++ flightsIn false ((w.tasks[t]?).getD []) ++ B ∧
      (w.cancel t).1.flights = A ++ B := by
  unfold cancel
  cases ht : w.tasks[t]? with
  | none => exact ⟨w.flights, [], by simp [flightsIn], by simp⟩
  | some frames =>
    obtain ⟨A, B, hold, hnew⟩ := flights_split ht
    refine ⟨A, B, hold, ?_⟩
    cases frames with
    | nil => simpa [flights, flightsIn] using hold
    | cons frame below => simpa [flights, flightsIn] using hnew []

theorem cancel_sound {modules : List (String × List Action)} {turns : List Turn} (t : Nat) :
    Sound (((initial modules).after turns).cancel t).1.scene := by
  have hrun := run_sound modules (turns ++ [Turn.operate (.cancel t)])
  rwa [after_append] at hrun

/-- In every state that a run reaches no path has two sequences in flight; a context is busy exactly
while one sequence holds it, and a task that is dropped leaves none of its contexts busy; and a
sequence in flight finds its own context registered under the path of this context. -/
theorem sequences_exclusive (modules : List (String × List Action)) (turns : List Turn) :
    let w := (initial modules).after turns
    (∀ path, w.flights.countP (fun f => f.sequence.path w.registry = path) ≤ 1) ∧
    (∀ id c, w.registry.context? id = some c →
      (holdings w.flights).count id = if c.busy then 1 else 0) ∧
    (∀ t, ∀ f ∈ flightsIn false ((w.tasks[t]?).getD []), ∀ c,
      (w.cancel t).1.registry.context? f.context = some c → c.busy = false) ∧
    ∀ f ∈ w.flights, ∃ c, w.registry.context? f.context = some c ∧
      f.sequence.path w.registry = c.path ∧ w.registry.find? c.path = some f.context := by
  intro w
  have h : Sound w.scene := run_sound modules turns
  refine ⟨countP_path_le_one h, h.busy, ?_, fun f hf => placed_path h hf⟩
  intro t f hf c hc
  obtain ⟨A, B, hold, hnew⟩ := holdings_cancel w t
  have hw' : Sound (w.cancel t).1.scene := cancel_sound t
  have hcount := hw'.busy f.context c hc
  have hone := count_le_one h f.context
  have hpos : 0 < (holdings (flightsIn false ((w.tasks[t]?).getD []))).count f.context :=
    List.count_pos_iff.mpr (List.mem_map_of_mem hf)
  rw [hold, holdings_append, holdings_append, List.count_append, List.count_append] at hone
  simp only [scene, hnew, holdings_append, List.count_append] at hcount
  -- a busy context would be held by the dropped task and by another one
  by_contra hbusy
  rw [if_pos (by simpa using hbusy)] at hcount
  omega

end World

end ModuleHost.Hot
