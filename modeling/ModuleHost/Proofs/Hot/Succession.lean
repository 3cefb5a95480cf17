import ModuleHost.Proofs.Hot.Locality

/-! The contexts that a path has had. They come one after the other: what can be told of a
registered context is only ever told of the last one. -/

namespace ModuleHost.Hot

open ModuleHost.Json

def Happening.made? (path : String) : Happening → Option Nat
  | .made id p => if p = path then some id else none
  | _ => none

/-- The contexts that were made for a path, the first one first. -/
def contextsOf (path : String) (hs : List Happening) : List Nat :=
  hs.filterMap (Happening.made? path)

theorem contextsOf_snoc (path : String) (hs : List Happening) (h : Happening) :
    contextsOf path (hs ++ [h]) = contextsOf path hs ++ (h.made? path).toList :=
  filterMap_snoc _ hs h

theorem contextsOf_unmade {path : String} {h : Happening} (hmade : ∀ id p, h ≠ .made id p)
    (hs : List Happening) : contextsOf path (hs ++ [h]) = contextsOf path hs := by
  have hnone : h.made? path = none := by
    cases h with
    | made id p => exact absurd rfl (hmade id p)
    | _ => rfl
  rw [contextsOf_snoc, hnone, Option.toList_none, List.append_nil]

/-- Contexts keep their paths, and no path is registered anew. -/
structure Steady (σ τ : Scene) : Prop where
  paths : ∀ id, (τ.registry.context? id).map Context.path =
    (σ.registry.context? id).map Context.path
  registered : ∀ path id, τ.registry.find? path = some id → σ.registry.find? path = some id

theorem Steady.modified {r : Contexts} {L M : List Flight} (id : Nat)
    {f : Context (Callback Action) Value → Context (Callback Action) Value}
    (hf : ∀ c, (f c).path = c.path) : Steady ⟨r, L⟩ ⟨r.modify id f, M⟩ :=
  ⟨fun j => Registry.map_context?_modify r id j hf, fun _ _ h => h⟩

theorem Steady.moved {r : Contexts} {L M : List Flight} : Steady ⟨r, L⟩ ⟨r, M⟩ :=
  ⟨fun _ => rfl, fun _ _ h => h⟩

theorem Change.steady {σ τ : Scene} {h : Happening} (hc : Change σ h τ) (hs : Sound σ)
    (hmade : ∀ id path, h ≠ .made id path) : Steady σ τ := by
  cases hc with
  | @made r L path hf => exact absurd rfl (hmade r.contexts.length path)
  | reused hf => exact .modified _ fun _ => rfl
  | accepts id callback => exact .modified _ fun _ => rfl
  | disposes id callback => exact .modified _ fun _ => rfl
  | marked id => exact .modified _ fun _ => rfl
  | wrote id f => exact .modified _ fun _ => rfl
  | queued job hf busy => exact .modified _ fun _ => rfl
  | granted job hf hctx free => exact .modified _ fun _ => rfl
  | begun id job => exact .modified _ fun _ => rfl
  | calledDispose id job callback left => exact .moved
  | turned id module => exact .modified _ fun _ => rfl
  | calledAccept id module generation taken callback left => exact .moved
  | returned s => exact .moved
  | @pruned r A B s hstage =>
    refine ⟨fun id => ?_, fun path id hfind => ?_⟩
    · refine (Registry.map_context?_modify _ _ _ ?_).trans
        ((Registry.map_context?_modify _ _ _ ?_).trans rfl)
      · exact fun _ => rfl
      · exact fun _ => rfl
    · have hmem := (Registry.mem_unregister.mp (Registry.find?_mem hfind)).1
      exact (Registry.find?_eq_some_iff hs.distinct).mpr hmem
  | @resumed r A B s module generation taken job rest hstage hq =>
    refine ⟨fun id => ?_, fun path id hfind => ?_⟩
    · refine (Registry.map_context?_modify _ _ _ ?_).trans (map_putBack s r _ _ _ id ?_)
      · exact fun _ => rfl
      · exact fun _ _ => rfl
    · simpa using hfind
  | @finished r A B s module generation taken hstage hq =>
    refine ⟨fun id => ?_, fun path id hfind => ?_⟩
    · refine (Registry.map_context?_modify _ _ _ ?_).trans (map_putBack s r _ _ _ id ?_)
      · exact fun _ => rfl
      · exact fun _ _ => rfl
    · simpa [Sequence.release, Registry.setBusy] using hfind
  | dropped f => exact .modified _ fun _ => rfl

theorem Steady.context {σ τ : Scene} (h : Steady σ τ) {id : Nat} {path : String} :
    (∃ c, τ.registry.context? id = some c ∧ c.path = path) ↔
      ∃ c, σ.registry.context? id = some c ∧ c.path = path := by
  rw [← Option.map_eq_some_iff, ← Option.map_eq_some_iff, h.paths]

theorem Change.context_kept {σ τ : Scene} {h : Happening} {id : Nat} {path : String}
    (hc : Change σ h τ) (hs' : Sound σ)
    (hid : ∃ c, σ.registry.context? id = some c ∧ c.path = path) :
    ∃ c, τ.registry.context? id = some c ∧ c.path = path := by
  by_cases hmade : ∃ new p, h = .made new p
  · obtain ⟨new, p, rfl⟩ := hmade
    obtain ⟨c, hc', hpath⟩ := hid
    cases hc with
    | made p hf =>
      refine ⟨c, ?_, hpath⟩
      rw [Registry.context?_create hf, if_neg (Nat.ne_of_lt (Registry.context?_lt hc'))]
      exact hc'
  · have hsteady := hc.steady hs' fun new p heq => hmade ⟨new, p, heq⟩
    exact hsteady.context.mpr hid

theorem Changes.context_kept {σ τ : Scene} {hs : List Happening} {id : Nat} {path : String}
    (hc : Changes σ hs τ) (hs' : Sound σ)
    (hid : ∃ c, σ.registry.context? id = some c ∧ c.path = path) :
    ∃ c, τ.registry.context? id = some c ∧ c.path = path := by
  induction hc with
  | refl => exact hid
  | next hfirst hlast ih => exact hlast.context_kept (hfirst.sound hs') ih

structure Succession (path : String) (hs : List Happening) (σ : Scene) : Prop where
  known : ∀ id, id ∈ contextsOf path hs ↔ ∃ c, σ.registry.context? id = some c ∧ c.path = path
  distinct : (contextsOf path hs).Nodup
  current : ∀ id, σ.registry.find? path = some id → (contextsOf path hs).getLast? = some id

theorem Succession.made {path p : String} {hs : List Happening} {r : Contexts} {L : List Flight}
    (hv : Succession path hs ⟨r, L⟩) (hf : r.find? p = none) :
    Succession path (hs ++ [Happening.made r.contexts.length p]) ⟨(r.create p).2.1, L⟩ := by
  have hnew : r.contexts.length ∉ contextsOf path hs := by
    rw [hv.known]
    rintro ⟨c, hc, -⟩
    exact Nat.lt_irrefl _ (Registry.context?_lt hc)
  by_cases hp : p = path
  · subst hp
    have hmade : contextsOf p (hs ++ [Happening.made r.contexts.length p]) =
        contextsOf p hs ++ [r.contexts.length] := by
      rw [contextsOf_snoc]
      simp [Happening.made?]
    refine ⟨fun id => ?_, ?_, fun id hfind => ?_⟩
    · rw [hmade, List.mem_append, hv.known, List.mem_singleton, Registry.context?_create hf]
      by_cases hid : id = r.contexts.length
      · simp [hid]
      · simp [hid]
    · rw [hmade]
      exact List.nodup_append.mpr ⟨hv.distinct, List.nodup_singleton _, by
        rintro a ha b hb rfl
        exact hnew (List.mem_singleton.mp hb ▸ ha)⟩
    · rw [Registry.find?_create hf, if_pos rfl] at hfind
      rw [hmade, List.getLast?_concat, hfind]
  · have hsame : contextsOf path (hs ++ [Happening.made r.contexts.length p]) = contextsOf path hs := by
      rw [contextsOf_snoc]
      simp [Happening.made?, hp]
    refine ⟨fun id => ?_, hsame ▸ hv.distinct, fun id hfind => ?_⟩
    · rw [hsame, hv.known, Registry.context?_create hf]
      by_cases hid : id = r.contexts.length
      · subst hid
        have hnone : r.context? r.contexts.length = none := List.getElem?_eq_none (Nat.le_refl _)
        simp [hnone, hp]
      · simp [hid]
    · rw [Registry.find?_create hf, if_neg (Ne.symm hp)] at hfind
      exact hsame ▸ hv.current id hfind

theorem Change.succession {path : String} {σ τ : Scene} {h : Happening} {hs : List Happening}
    (hc : Change σ h τ) (hsound : Sound σ) (hv : Succession path hs σ) :
    Succession path (hs ++ [h]) τ := by
  by_cases hmade : ∃ id p, h = .made id p
  · obtain ⟨id, p, rfl⟩ := hmade
    cases hc with
    | made p hf => exact hv.made hf
  · have hother : ∀ id p, h ≠ .made id p := fun id p heq => hmade ⟨id, p, heq⟩
    have hsteady := hc.steady hsound hother
    have hsame : contextsOf path (hs ++ [h]) = contextsOf path hs := contextsOf_unmade hother hs
    refine ⟨fun id => ?_, hsame ▸ hv.distinct, fun id hfind => ?_⟩
    · rw [hsame, hv.known, hsteady.context]
    · exact hsame ▸ hv.current id (hsteady.registered path id hfind)

theorem Succession.path_eq {path p : String} {hs : List Happening} {σ : Scene} {id : Nat}
    (hv : Succession path hs σ) (hs' : Sound σ) (hfind : σ.registry.find? p = some id)
    (hmem : id ∈ contextsOf path hs) : p = path := by
  obtain ⟨c, hc, hpath⟩ := (hv.known id).mp hmem
  obtain ⟨c', hc', rfl⟩ := hs'.registered hfind
  obtain rfl : c = c' := Option.some.inj (hc.symm.trans hc')
  exact hpath

section

variable {β : Type} {read : Nat → Happening → Option β} {path : String} {σ τ : Scene}
  {hs : List Happening} {h : Happening}

/-- A reading tells something of one context only, and only while it is registered. -/
structure Reading (read : Nat → Happening → Option β) : Prop where
  about : ∀ {id h}, h.context ≠ id → read id h = none
  registered : ∀ {σ h τ}, Change σ h τ → Sound σ → read h.context h ≠ none →
    ∃ path, σ.registry.find? path = some h.context

def along (read : Nat → Happening → Option β) (path : String) (hs : List Happening) : List β :=
  hs.filterMap fun h => if h.context ∈ contextsOf path hs then read h.context h else none

def byContext (read : Nat → Happening → Option β) (path : String) (hs : List Happening) : List β :=
  (contextsOf path hs).flatMap fun id => hs.filterMap (read id)

/-- The reading tells something of contexts that exist only. -/
def Told (read : Nat → Happening → Option β) (hs : List Happening) (σ : Scene) : Prop :=
  ∀ h ∈ hs, read h.context h ≠ none → ∃ c, σ.registry.context? h.context = some c

theorem Told.snoc (hread : Reading read) (ht : Told read hs σ) (hc : Change σ h τ)
    (hs' : Sound σ) : Told read (hs ++ [h]) τ := by
  have kept : ∀ id, (∃ c, σ.registry.context? id = some c) →
      ∃ c, τ.registry.context? id = some c := by
    rintro id ⟨c, hc'⟩
    obtain ⟨c', hτ, -⟩ := hc.context_kept hs' ⟨c, hc', rfl⟩
    exact ⟨c', hτ⟩
  intro h' hmem hsome
  rcases List.mem_append.mp hmem with hold | hlast
  · exact kept _ (ht h' hold hsome)
  · obtain rfl := List.mem_singleton.mp hlast
    obtain ⟨p, hfind⟩ := hread.registered hc hs' hsome
    obtain ⟨c, hc', -⟩ := Sound.registered hs' hfind
    exact kept _ ⟨c, hc'⟩

theorem Told.fresh (hread : Reading read) (ht : Told read hs σ) :
    hs.filterMap (read σ.registry.contexts.length) = [] := by
  refine List.filterMap_eq_nil_iff.mpr fun h hmem => ?_
  by_cases hid : h.context = σ.registry.contexts.length
  · by_contra hsome
    obtain ⟨c, hc⟩ := ht h hmem (hid ▸ hsome)
    exact Nat.lt_irrefl _ (hid ▸ Registry.context?_lt hc)
  · exact hread.about hid

theorem byContext_untold (ids : List Nat) (hnone : ∀ id ∈ ids, read id h = none) :
    (ids.flatMap fun id => (hs ++ [h]).filterMap (read id)) =
      ids.flatMap fun id => hs.filterMap (read id) := by
  refine List.flatMap_congr fun id hmem => ?_
  rw [filterMap_snoc, hnone id hmem, Option.toList_none, List.append_nil]

theorem along_made (hread : Reading read) {r : Contexts} {L : List Flight} {p : String}
    (ht : Told read hs ⟨r, L⟩) (hs' : Sound ⟨r, L⟩) (hf : r.find? p = none)
    (ih : along read path hs = byContext read path hs) :
    along read path (hs ++ [Happening.made r.contexts.length p]) =
      byContext read path (hs ++ [Happening.made r.contexts.length p]) := by
  have hfresh : hs.filterMap (read r.contexts.length) = [] := ht.fresh hread
  have hquiet : ∀ id, read id (.made r.contexts.length p) = none := by
    intro id
    by_cases hid : r.contexts.length = id
    · subst hid
      by_contra hsome
      obtain ⟨p', hfind⟩ := hread.registered (.made p hf) hs' hsome
      obtain ⟨c, hc, -⟩ := hs'.registered hfind
      exact Nat.lt_irrefl _ (Registry.context?_lt hc)
    · exact hread.about hid
  -- that the new context joins those of the path makes no difference to what was told before
  have halong : along read path (hs ++ [Happening.made r.contexts.length p]) = along read path hs := by
    rw [along, filterMap_snoc, hquiet, ite_self, Option.toList_none, List.append_nil]
    refine List.filterMap_congr fun h hmem => ?_
    by_cases hnew : h.context = r.contexts.length
    · have hnone : read h.context h = none := by
        rw [hnew]
        exact List.filterMap_eq_nil_iff.mp hfresh h hmem
      simp [hnone]
    · have hmade : h.context ∉ (Happening.made? path (.made r.contexts.length p)).toList := by
        simp only [Happening.made?]
        split <;> simp [hnew]
      simp [contextsOf_snoc, hmade]
  rw [halong, ih, byContext, byContext, contextsOf_snoc, List.flatMap_append,
    byContext_untold _ fun id _ => hquiet id]
  simp only [Happening.made?]
  split
  · simp [hquiet, hfresh]
  · simp

theorem along_snoc (hread : Reading read) (hv : Succession path hs σ) (ht : Told read hs σ)
    (hc : Change σ h τ) (hs' : Sound σ) (ih : along read path hs = byContext read path hs) :
    along read path (hs ++ [h]) = byContext read path (hs ++ [h]) := by
  by_cases hmade : ∃ id p, h = .made id p
  · obtain ⟨id, p, rfl⟩ := hmade
    cases hc with
    | made p hf => exact along_made hread ht hs' hf ih
  · have hsame : contextsOf path (hs ++ [h]) = contextsOf path hs :=
      contextsOf_unmade (fun id p heq => hmade ⟨id, p, heq⟩) hs
    rw [along, byContext, hsame, filterMap_snoc, ← along, ih, byContext]
    by_cases htold : h.context ∈ contextsOf path hs ∧ read h.context h ≠ none
    · -- what is told now is told of the last context
      obtain ⟨hmem, hsome⟩ := htold
      obtain ⟨p, hfind⟩ := hread.registered hc hs' hsome
      obtain rfl : p = path := hv.path_eq hs' hfind hmem
      obtain ⟨front, hlast⟩ := List.getLast?_eq_some_iff.mp (hv.current _ hfind)
      have hnodup : (front ++ [h.context]).Nodup := hlast ▸ hv.distinct
      have hfront : h.context ∉ front := fun hmem =>
        (List.nodup_append.mp hnodup).2.2 _ hmem _ (List.mem_singleton_self _) rfl
      have hquiet : ∀ id ∈ front, read id h = none := fun id hid =>
        hread.about fun heq => hfront (heq ▸ hid)
      rw [if_pos hmem, hlast, List.flatMap_append, List.flatMap_append, byContext_untold _ hquiet,
        List.flatMap_singleton, List.flatMap_singleton, filterMap_snoc, List.append_assoc]
    · have hquiet : ∀ id ∈ contextsOf path hs, read id h = none := by
        intro id hid
        by_cases heq : h.context = id
        · subst heq
          by_contra hsome
          exact htold ⟨hid, hsome⟩
        · exact hread.about heq
      have hnone : (if h.context ∈ contextsOf path hs then read h.context h else none) = none := by
        split
        · exact hquiet _ ‹_›
        · rfl
      rw [byContext_untold _ hquiet, hnone, Option.toList_none, List.append_nil]

/-- What is told of a path is told of one of its contexts after the other. -/
theorem Changes.along_eq (hread : Reading read) (path : String) (hc : Changes ⟨{}, []⟩ hs σ) :
    along read path hs = byContext read path hs := by
  have hall : Succession path hs σ ∧ Told read hs σ ∧
      along read path hs = byContext read path hs := by
    induction hc with
    | refl =>
      refine ⟨⟨fun id => ?_, List.nodup_nil, nofun⟩, nofun, rfl⟩
      simp [contextsOf, Registry.context?]
    | next hfirst hlast ih =>
      obtain ⟨hv, ht, heq⟩ := ih
      have hs' := hfirst.sound .empty
      exact ⟨hlast.succession hs' hv, ht.snoc hread hlast hs',
        along_snoc hread hv ht hlast hs' heq⟩
  exact hall.2.2

end

end ModuleHost.Hot
