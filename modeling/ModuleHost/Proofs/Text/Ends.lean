import Mathlib.Data.List.DropRight
import ModuleHost.Text.Trim

/-! Where a stretch of characters of one class ends: at the first character behind it that is not in
the class, or, from the end of a text, at the last one. -/

namespace ModuleHost.Text

variable {p : Char → Bool} {s t : List Char}

theorem dropWhile_exact (ht : ∀ c ∈ t, p c = true) (hs : ∀ c ∈ s.head?, p c = false) :
    (t ++ s).dropWhile p = s := by
  rw [List.dropWhile_append_of_pos ht]
  cases s with
  | nil => rfl
  | cons c s => rw [List.dropWhile_cons, hs c rfl, if_neg Bool.false_ne_true]

theorem takeWhile_exact (ht : ∀ c ∈ t, p c = true) (hs : ∀ c ∈ s.head?, p c = false) :
    (t ++ s).takeWhile p = t := by
  have hsplit := List.takeWhile_append_dropWhile (p := p) (l := t ++ s)
  rw [dropWhile_exact ht hs] at hsplit
  exact List.append_cancel_right hsplit

theorem dropEndWhile_append (ht : ∀ c ∈ t, p c = true) (hs : ∀ c ∈ s.getLast?, p c = false) :
    dropEndWhile p (s ++ t) = s := by
  have hback : ∀ c ∈ t.reverse, p c = true := fun c hc => ht c (List.mem_reverse.mp hc)
  have hlast : ∀ c ∈ s.reverse.head?, p c = false := by
    rw [List.head?_reverse]
    exact hs
  rw [dropEndWhile, List.reverse_append, dropWhile_exact hback hlast, List.reverse_reverse]

theorem dropEndWhile_split (p : Char → Bool) (s : List Char) :
    ∃ t, s = dropEndWhile p s ++ t ∧ ∀ c ∈ t, p c = true := by
  refine ⟨s.rtakeWhile p, List.rdropWhile_append_rtakeWhile.symm, fun c hc => ?_⟩
  exact List.mem_rtakeWhile_imp hc

theorem getLast?_dropEndWhile : ∀ c ∈ (dropEndWhile p s).getLast?, p c = false := by
  intro c hc
  obtain ⟨u, hu⟩ := List.getLast?_eq_some_iff.mp hc
  have hne : s.rdropWhile p ≠ [] := by
    intro hnil
    have hempty : dropEndWhile p s = [] := hnil
    rw [hempty] at hu
    simp at hu
  have hlast := List.rdropWhile_last_not p s hne
  have hc' : (s.rdropWhile p).getLast hne = c := by
    have hsome := List.getLast?_eq_some_getLast hne
    exact Option.some.inj (hsome.symm.trans hc)
  rw [hc'] at hlast
  exact Bool.eq_false_iff.mpr hlast

theorem getLast?_joined (u : String) {v : String} {c : Char} (h : v.toList.getLast? = some c) :
    (u ++ v).toList.getLast? = some c := by
  rw [String.toList_append, List.getLast?_append, h, Option.some_or]

end ModuleHost.Text
