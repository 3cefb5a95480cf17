import Mathlib.Data.List.TakeDrop
import ModuleHost.Files.Path
import ModuleHost.Proofs.Text.Ends

/-! Names and their extensions. A name with an extension is cut at its last dot, and it is put
together again from its two parts. -/

namespace ModuleHost.Files.Path

theorem splitExtension_append {stem extension : String} (hstem : stem ≠ "")
    (hdot : '.' ∉ extension.toList) :
    splitExtension (stem ++ "." ++ extension) = (stem, some extension) := by
  have hreverse : (stem ++ "." ++ extension).toList.reverse =
      extension.toList.reverse ++ '.' :: stem.toList.reverse := by simp
  have hbehind : ∀ c ∈ extension.toList.reverse, decide (c ≠ '.') = true := by
    intro c hc
    have hne : c ≠ '.' := fun heq => hdot (heq ▸ List.mem_reverse.mp hc)
    simpa using hne
  have hfront : ∀ c ∈ ('.' :: stem.toList.reverse).head?, decide (c ≠ '.') = false := by simp
  have hsome : stem.toList.reverse ≠ [] := by simpa using hstem
  obtain ⟨last, front, hlast⟩ := List.exists_cons_of_ne_nil hsome
  rw [splitExtension, List.span_eq_takeWhile_dropWhile, hreverse,
    Text.takeWhile_exact hbehind hfront, Text.dropWhile_exact hbehind hfront, hlast]
  simp only []
  rw [← hlast, List.reverse_reverse, List.reverse_reverse, String.ofList_toList,
    String.ofList_toList]

theorem eq_of_splitExtension {name stem extension : String}
    (h : splitExtension name = (stem, some extension)) :
    name = stem ++ "." ++ extension ∧ stem ≠ "" ∧ '.' ∉ extension.toList := by
  have hsplit := List.takeWhile_append_dropWhile (p := (· ≠ '.')) (l := name.toList.reverse)
  unfold splitExtension at h
  rw [List.span_eq_takeWhile_dropWhile] at h
  split at h
  · cases h
  · cases h
  · rename_i behind dot front hfront hspan
    cases h
    obtain ⟨hbehind, hdrop⟩ := Prod.mk.inj hspan
    have hdot : dot = '.' := by
      have hnot := List.head?_dropWhile_not (· ≠ '.') name.toList.reverse
      rw [hdrop] at hnot
      simpa using hnot
    have hname : name.toList = front.reverse ++ '.' :: behind.reverse := by
      rw [hbehind, hdrop, hdot] at hsplit
      rw [← List.reverse_reverse name.toList, ← hsplit]
      simp
    refine ⟨String.toList_inj.mp (by simp [hname]), ?_, ?_⟩
    · intro hempty
      exact hfront (by simpa using congrArg String.toList hempty)
    · intro hmem
      rw [String.toList_ofList, List.mem_reverse, ← hbehind] at hmem
      have hne := List.mem_takeWhile_imp hmem
      simp at hne

end ModuleHost.Files.Path
