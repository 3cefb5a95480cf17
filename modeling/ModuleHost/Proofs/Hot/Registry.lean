import Mathlib.Data.List.Nodup
import ModuleHost.Hot.Sequence

/-! How the operations on a registry look from one context and from one path. -/

namespace ModuleHost.Hot.Registry

variable {α μ : Type}

@[simp] theorem context?_modify (r : Registry α μ) (id j : Nat) (f : Context α μ → Context α μ) :
    (r.modify id f).context? j = (r.context? j).map fun c => if id = j then f c else c :=
  List.getElem?_modify ..

theorem context?_modify_self {r : Registry α μ} {id : Nat} {c : Context α μ}
    (h : r.context? id = some c) (f : Context α μ → Context α μ) :
    (r.modify id f).context? id = some (f c) := by
  simp [h]

theorem context?_modify_ne (r : Registry α μ) {id j : Nat} (h : id ≠ j)
    (f : Context α μ → Context α μ) : (r.modify id f).context? j = r.context? j := by
  simp [h]

theorem map_context?_modify {β : Type} {g : Context α μ → β} {f : Context α μ → Context α μ}
    (r : Registry α μ) (id j : Nat) (h : ∀ c, g (f c) = g c) :
    ((r.modify id f).context? j).map g = (r.context? j).map g := by
  rw [context?_modify, Option.map_map]
  congr 1
  funext c
  dsimp only [Function.comp]
  split
  · exact h c
  · rfl

@[simp] theorem find?_modify (r : Registry α μ) (id : Nat) (f : Context α μ → Context α μ)
    (path : String) : (r.modify id f).find? path = r.find? path := rfl

theorem find?_mem {r : Registry α μ} {path : String} {id : Nat} (h : r.find? path = some id) :
    (path, id) ∈ r.registered := by
  obtain ⟨⟨p, i⟩, hf, rfl⟩ := Option.map_eq_some_iff.mp h
  obtain rfl : p = path := by simpa using List.find?_some hf
  exact List.mem_of_find?_eq_some hf

theorem create_of_none {r : Registry α μ} {path : String} (h : r.find? path = none) :
    (r.create path).2.1 =
      { contexts := r.contexts ++ [{ path }],
        registered := (path, r.contexts.length) :: r.registered } := by
  simp [create, h]

theorem find?_create {r : Registry α μ} {path : String} (h : r.find? path = none) (p : String) :
    (r.create path).2.1.find? p = if p = path then some r.contexts.length else r.find? p := by
  rw [create_of_none h]
  by_cases hp : p = path
  · simp [find?, hp]
  · simp [find?, hp, Ne.symm hp]

theorem context?_create {r : Registry α μ} {path : String} (h : r.find? path = none) (j : Nat) :
    (r.create path).2.1.context? j =
      if j = r.contexts.length then some { path } else r.context? j := by
  rw [create_of_none h]
  rcases Nat.lt_trichotomy j r.contexts.length with hj | rfl | hj
  · rw [if_neg (Nat.ne_of_lt hj)]
    exact List.getElem?_append_left hj
  · simp [context?]
  · rw [if_neg (Nat.ne_of_gt hj)]
    simp [context?, Nat.le_of_lt hj, List.getElem?_append_right, Nat.sub_ne_zero_of_lt hj]

theorem create_of_some {r : Registry α μ} {path : String} {id : Nat}
    (h : r.find? path = some id) :
    (r.create path).1 = id ∧ (r.create path).2.1 = r.modify id Context.handOut := by
  simp [create, h]

theorem find?_created (r : Registry α μ) (path : String) :
    (r.create path).2.1.find? path = some (r.create path).1 := by
  cases h : r.find? path with
  | none =>
    have hid : (r.create path).1 = r.contexts.length := by simp [create, h]
    rw [find?_create h, if_pos rfl, hid]
  | some id =>
    obtain ⟨hid, hr⟩ := create_of_some h
    rw [hid, hr, find?_modify, h]

theorem context?_lt {r : Registry α μ} {id : Nat} {c : Context α μ} (h : r.context? id = some c) :
    id < r.contexts.length := (List.getElem?_eq_some_iff.mp h).1

@[simp] theorem context?_unregister (r : Registry α μ) (path : String) (id j : Nat) :
    (r.unregister path id).context? j = r.context? j := rfl

theorem mem_unregister {r : Registry α μ} {path : String} {id : Nat} {e : String × Nat} :
    e ∈ (r.unregister path id).registered ↔ e ∈ r.registered ∧ ¬(e.1 = path ∧ e.2 = id) := by
  simp [unregister, List.mem_filter, imp_iff_not_or]

theorem find?_eq_some_iff {r : Registry α μ} (h : (r.registered.map Prod.fst).Nodup)
    {path : String} {id : Nat} : r.find? path = some id ↔ (path, id) ∈ r.registered := by
  refine ⟨find?_mem, fun hmem => ?_⟩
  cases hf : r.find? path with
  | none =>
    have hnone := List.find?_eq_none.mp (Option.map_eq_none_iff.mp hf) _ hmem
    simp at hnone
  | some j =>
    have heq := List.inj_on_of_nodup_map h (find?_mem hf) hmem rfl
    rw [(Prod.mk.inj heq).2]

theorem find?_unregister {r : Registry α μ} {path p : String} {id j : Nat}
    (h : r.find? p = some j) (hj : j ≠ id) : (r.unregister path id).find? p = some j := by
  obtain ⟨contexts, registered⟩ := r
  simp only [find?, unregister] at h ⊢
  induction registered with
  | nil => simp at h
  | cons e more ih =>
    by_cases he : e.1 = p
    · obtain rfl : e.2 = j := by simpa [he] using h
      simp [hj, he]
    · have hmore : (more.find? (·.1 = p)).map Prod.snd = some j := by simpa [he] using h
      rw [List.filter_cons]
      split
      · simpa [he] using ih hmore
      · exact ih hmore

end ModuleHost.Hot.Registry
