import Mathlib.Data.List.TakeWhile
import ModuleHost.Proofs.Text.Offsets

/-! White space between tokens: where it ends does not depend on what comes after the next token. -/

namespace ModuleHost.Text

variable {p q r s t head rest : List Char} {n : Nat}

/-- A token starts here: the text can be cut, and no white space follows. -/
def StartsToken (text : List Char) (n : Nat) : Prop :=
  ((dropBytes? text n).bind List.head?).any (!isBlank ·) = true

instance (text : List Char) (n : Nat) : Decidable (StartsToken text n) :=
  inferInstanceAs (Decidable (_ = true))

theorem startsToken_iff : StartsToken s n ↔
    ∃ p c r, s = p ++ c :: r ∧ byteLength p = n ∧ isBlank c = false := by
  unfold StartsToken
  constructor
  · intro h
    cases hd : dropBytes? s n with
    | none => simp [hd] at h
    | some u =>
      obtain ⟨p, hs, hp⟩ := dropBytes?_eq_some.mp hd
      cases u with
      | nil =>
        rw [hd] at h
        simp at h
      | cons c r => exact ⟨p, c, r, hs, hp, by simpa [hd] using h⟩
  · rintro ⟨p, c, r, rfl, rfl, hc⟩
    simp [dropBytes?_append, hc]

theorem StartsToken.boundary (h : StartsToken s n) : Boundary s n := by
  obtain ⟨p, c, r, rfl, rfl, -⟩ := startsToken_iff.mp h
  exact ⟨p, c :: r, rfl, rfl⟩

theorem dropStart?_eq_some : dropStart? p s = some r ↔ s = p ++ r := by
  induction p generalizing s with
  | nil => simp [dropStart?, eq_comm]
  | cons c p ih =>
    cases s with
    | nil => simp [dropStart?]
    | cons d s =>
      rw [dropStart?]
      split
      · rename_i h
        rw [ih, h]
        simp
      · rename_i h
        simp [Ne.symm h]

theorem find?_append (h : p ≠ []) : find? p (p ++ r) = some 0 := by
  cases p with
  | nil => exact absurd rfl h
  | cons c p =>
    have hp : (c :: p).isPrefixOf (c :: (p ++ r)) = true := by simp
    rw [List.cons_append, find?, if_pos hp]

theorem takeWhile_blank_append (h : rest.any (!isBlank ·) = true) :
    (rest ++ t).takeWhile isBlank = rest.takeWhile isBlank := by
  induction rest with
  | nil => simp at h
  | cons c rest ih =>
    rw [List.cons_append, List.takeWhile_cons, List.takeWhile_cons]
    cases hc : isBlank c with
    | true => rw [if_pos rfl, if_pos rfl, ih (by simpa [hc] using h)]
    | false => rfl

theorem dropWhile_blank_append (h : rest.any (!isBlank ·) = true) :
    (rest ++ t).dropWhile isBlank = rest.dropWhile isBlank ++ t := by
  induction rest with
  | nil => simp at h
  | cons c rest ih =>
    rw [List.cons_append, List.dropWhile_cons, List.dropWhile_cons]
    cases hc : isBlank c with
    | true => rw [if_pos rfl, if_pos rfl, ih (by simpa [hc] using h)]
    | false => rfl

theorem getLast?_trimEnd_append (h : t.any (!isBlank ·) = true) :
    (trimEnd (p ++ t)).getLast? = (trimEnd t).getLast? := by
  have hrev : t.reverse.any (!isBlank ·) = true := by simpa using h
  have hne : t.reverse.dropWhile isBlank ≠ [] := by
    intro hnil
    obtain ⟨c, hc, hblank⟩ := List.any_eq_true.mp hrev
    have hall := List.dropWhile_eq_nil_iff.mp hnil c hc
    simp [hall] at hblank
  rw [trimEnd, trimEnd, dropEndWhile, dropEndWhile, List.reverse_append,
    dropWhile_blank_append hrev, List.getLast?_reverse, List.getLast?_reverse,
    List.head?_append_of_ne_nil _ hne]

theorem takeWhile_blank_le {c : Char} (hc : isBlank c = false) :
    byteLength ((s ++ c :: r).takeWhile isBlank) ≤ byteLength s := by
  induction s with
  | nil => simp [hc]
  | cons d s ih =>
    rw [List.cons_append, List.takeWhile_cons]
    split
    · simpa using ih
    · exact Nat.zero_le _

theorem StartsToken.behind_blanks (h : StartsToken (head ++ rest) n) (hn : byteLength head ≤ n) :
    byteLength head + byteLength (rest.takeWhile isBlank) ≤ n := by
  obtain ⟨p, c, r, heq, rfl, hc⟩ := startsToken_iff.mp h
  obtain ⟨u, rfl, rfl⟩ := prefix_of_byteLength_le heq hn
  rw [byteLength_append]
  exact Nat.add_le_add_left (takeWhile_blank_le hc) _

end ModuleHost.Text
