import Mathlib.Data.List.Induction
import Mathlib.Data.String.Basic
import ModuleHost.Proofs.Json.Values

/-! Normal values: the entries of every object are sorted by key and each key stands once. Values
are normal once they are normalized, and normalizing leaves normal values as they are. -/

namespace ModuleHost.Json

def Sorted {α : Type} (entries : List (String × α)) : Prop := entries.Pairwise (·.1 < ·.1)

section

variable {α : Type} {key : String} {value : α} {entries : List (String × α)}

theorem mem_insertEntry {e : String × α} (h : e ∈ insertEntry key value entries) :
    e = (key, value) ∨ e ∈ entries := by
  induction entries with
  | nil => exact .inl (List.mem_singleton.mp h)
  | cons first rest ih =>
    obtain ⟨k, v⟩ := first
    rw [insertEntry] at h
    split at h
    · exact List.mem_cons.mp h
    · split at h
      · exact (List.mem_cons.mp h).imp_right (List.mem_cons_of_mem _)
      · rcases List.mem_cons.mp h with rfl | hrest
        · exact .inr List.mem_cons_self
        · exact (ih hrest).imp_right (List.mem_cons_of_mem _)

theorem insertEntry_sorted (h : Sorted entries) : Sorted (insertEntry key value entries) := by
  induction entries with
  | nil => exact List.pairwise_singleton _ _
  | cons first rest ih =>
    obtain ⟨k, v⟩ := first
    obtain ⟨hfirst, hrest⟩ := List.pairwise_cons.mp h
    rw [insertEntry]
    split
    · rename_i hlt
      refine List.pairwise_cons.mpr ⟨fun e he => ?_, h⟩
      rcases List.mem_cons.mp he with rfl | he
      · exact hlt
      · exact lt_trans hlt (hfirst e he)
    · split
      · rename_i heq
        exact List.pairwise_cons.mpr ⟨fun e he => heq ▸ hfirst e he, hrest⟩
      · rename_i hge hne
        refine List.pairwise_cons.mpr ⟨fun e he => ?_, ih hrest⟩
        rcases mem_insertEntry he with rfl | he
        · exact lt_of_le_of_ne (not_lt.mp hge) (Ne.symm hne)
        · exact hfirst e he

theorem sortEntries_append (as bs : List (String × α)) : sortEntries (as ++ bs) =
    bs.foldl (fun sorted e => insertEntry e.1 e.2 sorted) (sortEntries as) := List.foldl_append

theorem sortEntries_sorted (entries : List (String × α)) : Sorted (sortEntries entries) := by
  induction entries using List.reverseRecOn with
  | nil => exact List.Pairwise.nil
  | append_singleton entries e ih =>
    rw [sortEntries_append]
    exact insertEntry_sorted ih

theorem mem_sortEntries {e : String × α} (h : e ∈ sortEntries entries) : e ∈ entries := by
  induction entries using List.reverseRecOn with
  | nil => exact h
  | append_singleton entries last ih =>
    rw [sortEntries_append] at h
    rcases mem_insertEntry h with rfl | hold
    · simp
    · exact List.mem_append_left _ (ih hold)

theorem insertEntry_perm (h : ∀ e ∈ entries, e.1 ≠ key) :
    (insertEntry key value entries).Perm ((key, value) :: entries) := by
  induction entries with
  | nil => exact .refl _
  | cons first rest ih =>
    obtain ⟨hfirst, hrest⟩ := List.forall_mem_cons.mp h
    obtain ⟨k, v⟩ := first
    rw [insertEntry]
    split
    · exact .refl _
    · rw [if_neg (Ne.symm hfirst)]
      exact ((ih hrest).cons _).trans (.swap _ _ _)

theorem sortEntries_perm (h : (entries.map Prod.fst).Nodup) : (sortEntries entries).Perm entries := by
  induction entries using List.reverseRecOn with
  | nil => exact .refl _
  | append_singleton entries last ih =>
    rw [List.map_append, List.nodup_append] at h
    obtain ⟨hentries, -, hlast⟩ := h
    rw [sortEntries_append]
    have hnew : ∀ e ∈ sortEntries entries, e.1 ≠ last.1 := fun e he =>
      hlast _ (List.mem_map_of_mem (mem_sortEntries he)) _ List.mem_cons_self
    exact (insertEntry_perm hnew).trans
      (((ih hentries).cons _).trans (List.perm_append_singleton _ _).symm)

theorem Sorted.nodup (h : Sorted entries) : (entries.map Prod.fst).Nodup :=
  List.pairwise_map.mpr (h.imp ne_of_lt)

/-- In whatever order entries are written, they are sorted again. -/
theorem Sorted.sortEntries_eq_of_perm {written : List (String × α)} (h : Sorted entries)
    (hw : written.Perm entries) : sortEntries written = entries := by
  -- no key stands twice, so sorting only moves entries
  have hnodup : (written.map Prod.fst).Nodup := (hw.map Prod.fst).nodup_iff.mpr h.nodup
  exact ((sortEntries_perm hnodup).trans hw).eq_of_pairwise
    (fun _ _ _ _ hab hba => absurd (lt_trans hab hba) (lt_irrefl _)) (sortEntries_sorted _) h

theorem Sorted.sortEntries_eq (h : Sorted entries) : sortEntries entries = entries :=
  h.sortEntries_eq_of_perm (.refl _)

end

@[elab_as_elim]
theorem Value.inside {P : Value → Prop} (null : P .null) (bool : ∀ b, P (.bool b))
    (number : ∀ n, P (.number n)) (string : ∀ s, P (.string s))
    (array : ∀ elements, (∀ v ∈ elements, P v) → P (.array elements))
    (object : ∀ entries, (∀ e ∈ entries, P e.2) → P (.object entries)) (v : Value) : P v := by
  refine @Value.rec P (fun vs => ∀ v ∈ vs, P v) (fun es => ∀ e ∈ es, P e.2) (fun e => P e.2)
    null bool number string array object ?_ ?_ ?_ ?_ ?_ v
  · simp
  · exact fun v vs hv hvs => List.forall_mem_cons.mpr ⟨hv, hvs⟩
  · simp
  · exact fun e es he hes => List.forall_mem_cons.mpr ⟨he, hes⟩
  · exact fun k v hv => hv

/-- The values that `Value.normalize` leaves as they are. -/
inductive Normal : Value → Prop where
  | null : Normal .null
  | bool (b : Bool) : Normal (.bool b)
  | number (n : Number) : Normal (.number n)
  | string (s : String) : Normal (.string s)
  | array {elements : List Value} (h : ∀ v ∈ elements, Normal v) : Normal (.array elements)
  | object {entries : List (String × Value)} (hsorted : Sorted entries)
      (h : ∀ e ∈ entries, Normal e.2) : Normal (.object entries)

namespace Value

theorem normalizeAll_eq_map (elements : List Value) :
    normalizeAll elements = elements.map normalize := by
  induction elements with
  | nil => rfl
  | cons v rest ih => rw [normalizeAll, ih, List.map_cons]

theorem normalizeEntries_eq_map (entries : List (String × Value)) :
    normalizeEntries entries = entries.map fun e => (e.1, e.2.normalize) := by
  induction entries with
  | nil => rfl
  | cons e rest ih => rw [normalizeEntries, ih, List.map_cons]

theorem map_normalize_eq {entries : List (String × Value)}
    (h : ∀ e ∈ entries, e.2.normalize = e.2) :
    (entries.map fun e => (e.1, e.2.normalize)) = entries := by
  have hsame : ∀ e ∈ entries, (fun e : String × Value => (e.1, e.2.normalize)) e = id e :=
    fun e he => Prod.ext rfl (h e he)
  rw [List.map_congr_left hsame, List.map_id]

end Value

theorem normalize_normal (v : Value) : Normal v.normalize := by
  induction v using Value.inside with
  | null => exact .null
  | bool b => exact .bool b
  | number n => exact .number n
  | string s => exact .string s
  | array elements ih =>
    rw [Value.normalize, Value.normalizeAll_eq_map]
    exact .array (List.forall_mem_map.mpr ih)
  | object entries ih =>
    rw [Value.normalize, Value.normalizeEntries_eq_map]
    refine .object (sortEntries_sorted _) fun e he => ?_
    obtain ⟨e, hmem, rfl⟩ := List.mem_map.mp (mem_sortEntries he)
    exact ih e hmem

theorem Normal.normalize_eq {v : Value} (h : Normal v) : v.normalize = v := by
  induction h with
  | array h ih =>
    rw [Value.normalize, Value.normalizeAll_eq_map, List.map_congr_left ih, List.map_id']
  | object hsorted h ih =>
    rw [Value.normalize, Value.normalizeEntries_eq_map, Value.map_normalize_eq ih,
      hsorted.sortEntries_eq]
  | _ => rfl

theorem Fits.normalize {d : Nat} {v : Value} (h : Fits d v) : Fits d v.normalize := by
  induction h with
  | array h ih =>
    rw [Value.normalize, Value.normalizeAll_eq_map]
    exact .array (List.forall_mem_map.mpr ih)
  | object h ih =>
    rw [Value.normalize, Value.normalizeEntries_eq_map]
    refine .object fun e he => ?_
    obtain ⟨e, hmem, rfl⟩ := List.mem_map.mp (mem_sortEntries he)
    exact ih e hmem
  | null => exact .null
  | bool b => exact .bool b
  | int hlow hhigh => exact .int hlow hhigh
  | real x => exact .real x
  | string s => exact .string s

end ModuleHost.Json
