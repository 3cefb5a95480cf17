import Mathlib.Data.List.Basic
import ModuleHost.Text.Trim

/-! Byte offsets as cuts: an offset that does not fall inside a character stands for the text in
front of it. -/

namespace ModuleHost.Text

variable {p q r t s : List Char} {c : Char} {n lo hi : Nat}

@[simp] theorem byteLength_nil : byteLength [] = 0 := rfl

@[simp] theorem byteLength_cons : byteLength (c :: s) = c.utf8Size + byteLength s := rfl

@[simp] theorem byteLength_append : byteLength (s ++ t) = byteLength s + byteLength t := by
  induction s with
  | nil => simp
  | cons c s ih => rw [List.cons_append, byteLength_cons, byteLength_cons, ih, Nat.add_assoc]

theorem byteLength_pos (h : s ≠ []) : 0 < byteLength s := by
  cases s with
  | nil => exact absurd rfl h
  | cons c s => exact Nat.add_pos_left c.utf8Size_pos _

theorem eq_nil_of_byteLength (h : byteLength s = 0) : s = [] := by
  by_contra hs
  exact absurd (byteLength_pos hs) (by omega)

theorem prefix_of_byteLength_le (h : p ++ r = q ++ t) (hl : byteLength p ≤ byteLength q) :
    ∃ u, q = p ++ u ∧ r = u ++ t := by
  rcases List.append_eq_append_iff.mp h with ⟨u, rfl, rfl⟩ | ⟨u, rfl, rfl⟩
  · exact ⟨u, rfl, rfl⟩
  · rw [byteLength_append] at hl
    obtain rfl : u = [] := eq_nil_of_byteLength (by omega)
    exact ⟨[], by simp, by simp⟩

theorem append_inj_of_byteLength (h : p ++ r = q ++ t) (hl : byteLength p = byteLength q) :
    p = q ∧ r = t := by
  obtain ⟨u, rfl, rfl⟩ := prefix_of_byteLength_le h (by omega)
  rw [byteLength_append] at hl
  obtain rfl : u = [] := eq_nil_of_byteLength (by omega)
  simp

theorem dropBytes?_cons (h : n ≠ 0) : dropBytes? (c :: s) n =
    if c.utf8Size ≤ n then dropBytes? s (n - c.utf8Size) else none := dropBytes?.eq_3 n c s h

theorem takeBytes?_cons (h : n ≠ 0) : takeBytes? (c :: s) n =
    if c.utf8Size ≤ n then (takeBytes? s (n - c.utf8Size)).map (c :: ·) else none :=
  takeBytes?.eq_3 n c s h

theorem dropBytes?_append : dropBytes? (p ++ r) (byteLength p) = some r := by
  induction p with
  | nil => simp [dropBytes?]
  | cons c p ih =>
    have hc : c.utf8Size + byteLength p ≠ 0 := by have := c.utf8Size_pos; omega
    rw [List.cons_append, byteLength_cons, dropBytes?_cons hc, if_pos (Nat.le_add_right _ _),
      Nat.add_sub_cancel_left]
    exact ih

theorem takeBytes?_append : takeBytes? (p ++ r) (byteLength p) = some p := by
  induction p with
  | nil => simp [takeBytes?]
  | cons c p ih =>
    have hc : c.utf8Size + byteLength p ≠ 0 := by have := c.utf8Size_pos; omega
    rw [List.cons_append, byteLength_cons, takeBytes?_cons hc, if_pos (Nat.le_add_right _ _),
      Nat.add_sub_cancel_left, ih, Option.map_some]

theorem dropBytes?_eq_some : dropBytes? s n = some r ↔ ∃ p, s = p ++ r ∧ byteLength p = n := by
  refine ⟨fun h => ?_, ?_⟩
  · induction s, n using dropBytes?.induct with
    | case1 s => exact ⟨[], by simpa [dropBytes?] using h, rfl⟩
    | case2 n => simp [dropBytes?] at h
    | case3 c s n hn hc ih =>
      rw [dropBytes?_cons hn, if_pos hc] at h
      obtain ⟨p, rfl, hp⟩ := ih h
      exact ⟨c :: p, rfl, by rw [byteLength_cons]; omega⟩
    | case4 c s n hn hc =>
      rw [dropBytes?_cons hn, if_neg hc] at h
      simp at h
  · rintro ⟨p, rfl, rfl⟩
    exact dropBytes?_append

theorem takeBytes?_eq_some : takeBytes? s n = some p ↔ ∃ r, s = p ++ r ∧ byteLength p = n := by
  refine ⟨fun h => ?_, ?_⟩
  · induction s, n using takeBytes?.induct generalizing p with
    | case1 s =>
      obtain rfl : [] = p := by simpa [takeBytes?] using h
      exact ⟨s, rfl, rfl⟩
    | case2 n => simp [takeBytes?] at h
    | case3 c s n hn hc ih =>
      rw [takeBytes?_cons hn, if_pos hc] at h
      obtain ⟨p', hp', rfl⟩ := Option.map_eq_some_iff.mp h
      obtain ⟨r, rfl, hp⟩ := ih hp'
      exact ⟨r, rfl, by rw [byteLength_cons]; omega⟩
    | case4 c s n hn hc =>
      rw [takeBytes?_cons hn, if_neg hc] at h
      simp at h
  · rintro ⟨r, rfl, rfl⟩
    exact takeBytes?_append

theorem slice?_eq_some : slice? s lo hi = some t ↔
    ∃ p r, s = p ++ (t ++ r) ∧ byteLength p = lo ∧ lo + byteLength t = hi := by
  unfold slice?
  split
  · rename_i hle
    rw [Option.bind_eq_some_iff]
    constructor
    · rintro ⟨u, hu, ht⟩
      obtain ⟨p, rfl, hp⟩ := dropBytes?_eq_some.mp hu
      obtain ⟨r, rfl, hr⟩ := takeBytes?_eq_some.mp ht
      exact ⟨p, r, rfl, hp, by omega⟩
    · rintro ⟨p, r, rfl, hp, ht⟩
      exact ⟨t ++ r, dropBytes?_eq_some.mpr ⟨p, rfl, hp⟩,
        takeBytes?_eq_some.mpr ⟨r, rfl, by omega⟩⟩
  · rename_i hle
    simp only [reduceCtorEq, false_iff]
    rintro ⟨p, r, -, -, ht⟩
    omega

theorem slice?_append :
    slice? (p ++ (t ++ r)) (byteLength p) (byteLength p + byteLength t) = some t :=
  slice?_eq_some.mpr ⟨p, r, rfl, rfl, rfl⟩

def Boundary (s : List Char) (n : Nat) : Prop := ∃ p r, s = p ++ r ∧ byteLength p = n

theorem boundary_iff : Boundary s n ↔ (dropBytes? s n).isSome := by
  rw [Option.isSome_iff_exists]
  constructor
  · rintro ⟨p, r, h⟩
    exact ⟨r, dropBytes?_eq_some.mpr ⟨p, h⟩⟩
  · rintro ⟨r, h⟩
    obtain ⟨p, h⟩ := dropBytes?_eq_some.mp h
    exact ⟨p, r, h⟩

instance : Decidable (Boundary s n) := decidable_of_iff _ boundary_iff.symm

theorem Boundary.le (h : Boundary s n) : n ≤ byteLength s := by
  obtain ⟨p, r, rfl, rfl⟩ := h
  rw [byteLength_append]
  exact Nat.le_add_right _ _

theorem boundary_zero : Boundary s 0 := ⟨[], s, rfl, rfl⟩

theorem boundary_end : Boundary s (byteLength s) := ⟨s, [], by simp, rfl⟩

theorem Boundary.of_append (h : Boundary (p ++ r) n) (hn : n ≤ byteLength p) : Boundary p n := by
  obtain ⟨q, t, heq, rfl⟩ := h
  obtain ⟨w, rfl, -⟩ := prefix_of_byteLength_le heq.symm hn
  exact ⟨q, w, rfl, rfl⟩

theorem Boundary.slice (hlo : Boundary s lo) (hhi : Boundary s hi) (h : lo ≤ hi) :
    ∃ t, slice? s lo hi = some t := by
  obtain ⟨p, r, rfl, rfl⟩ := hlo
  obtain ⟨q, r', heq, rfl⟩ := hhi
  obtain ⟨t, rfl, rfl⟩ := prefix_of_byteLength_le heq h
  rw [byteLength_append]
  exact ⟨t, slice?_append⟩

end ModuleHost.Text
