import Mathlib.Data.List.Basic
import ModuleHost.Text.CharClass

/-! Tables of ranges as sets of numbers. What one table holds beyond another is found by one walk along
both, so that a fact about all characters of two classes comes down to a computation. -/

namespace ModuleHost.Text

variable {table cuts more : List (Nat × Nat)} {lo hi k m n : Nat} {c : Char}

def Within (table : List (Nat × Nat)) (n : Nat) : Prop := ∃ r ∈ table, r.1 ≤ n ∧ n ≤ r.2

theorem inRanges_iff : inRanges table c = true ↔ Within table c.toNat := by
  simp [inRanges, Within]

@[simp] theorem not_within_nil : ¬Within [] n := by
  rintro ⟨r, hr, -⟩
  cases hr

theorem within_cons : Within ((lo, hi) :: more) n ↔ (lo ≤ n ∧ n ≤ hi) ∨ Within more n :=
  List.exists_mem_cons_iff ..

theorem within_append : Within (table ++ more) n ↔ Within table n ∨ Within more n := by
  simp only [Within, List.mem_append, or_and_right, exists_or]

def ascending (m : Nat) : List (Nat × Nat) → Bool
  | [] => true
  | (lo, hi) :: more => m ≤ lo && lo ≤ hi && ascending (hi + 1) more

theorem ascending_cons :
    ascending m ((lo, hi) :: more) = true ↔ m ≤ lo ∧ lo ≤ hi ∧ ascending (hi + 1) more = true := by
  simp [ascending, and_assoc]

theorem ascending_le (h : ascending m table = true) (hn : Within table n) : m ≤ n := by
  induction table generalizing m with
  | nil => exact absurd hn not_within_nil
  | cons r more ih =>
    obtain ⟨hm, hr, hmore⟩ := ascending_cons.mp h
    rcases within_cons.mp hn with ⟨hlo, -⟩ | hin
    · exact Nat.le_trans hm hlo
    · have := ih hmore hin
      omega

theorem ascending_mono (h : ascending m table = true) (hk : k ≤ m) : ascending k table = true := by
  cases table with
  | nil => rfl
  | cons r more =>
    obtain ⟨hm, hr, hmore⟩ := ascending_cons.mp h
    exact ascending_cons.mpr ⟨Nat.le_trans hk hm, hr, hmore⟩

def without (lo hi : Nat) : List (Nat × Nat) → List (Nat × Nat)
  | [] => [(lo, hi)]
  | (a, b) :: cuts =>
    if hi < a then [(lo, hi)]
    else (if lo < a then [(lo, a - 1)] else []) ++
      (if b < hi then without (max lo (b + 1)) hi cuts else [])

/-- What is left of a table. Ranges that have been passed are not looked at again. -/
def minus : List (Nat × Nat) → List (Nat × Nat) → List (Nat × Nat)
  | [], _ => []
  | (lo, hi) :: more, cuts =>
    let left := cuts.dropWhile fun r => r.2 < lo
    without lo hi left ++ minus more left

theorem within_without (h : ascending m cuts = true) :
    Within (without lo hi cuts) n ↔ (lo ≤ n ∧ n ≤ hi) ∧ ¬Within cuts n := by
  induction cuts generalizing lo m with
  | nil => simp [without, within_cons]
  | cons r cuts ih =>
    obtain ⟨a, b⟩ := r
    obtain ⟨-, hab, hcuts⟩ := ascending_cons.mp h
    have hbehind : Within cuts n → b + 1 ≤ n := ascending_le hcuts
    rw [without, within_cons]
    split
    · -- all that is cut lies behind the range
      simp only [within_cons, not_within_nil, or_false]
      grind
    · rw [within_append]
      have hfront : Within (if lo < a then [(lo, a - 1)] else []) n ↔ lo ≤ n ∧ n < a := by
        split
        · simp only [within_cons, not_within_nil, or_false]
          omega
        · simp only [not_within_nil, false_iff]
          omega
      have hback : Within (if b < hi then without (max lo (b + 1)) hi cuts else []) n ↔
          (lo ≤ n ∧ b < n ∧ n ≤ hi) ∧ ¬Within cuts n := by
        split
        · rw [ih hcuts]
          grind
        · simp only [not_within_nil, false_iff]
          omega
      rw [hfront, hback]
      grind

theorem within_dropWhile (hn : lo ≤ n) :
    Within (cuts.dropWhile fun r => r.2 < lo) n ↔ Within cuts n := by
  induction cuts with
  | nil => rfl
  | cons r cuts ih =>
    rw [List.dropWhile_cons]
    split
    · rename_i hr
      have hr : r.2 < lo := of_decide_eq_true hr
      rw [ih, within_cons]
      refine (or_iff_right ?_).symm
      omega
    · rfl

theorem ascending_dropWhile (p : Nat × Nat → Bool) (h : ascending m cuts = true) :
    ascending m (cuts.dropWhile p) = true := by
  induction cuts generalizing m with
  | nil => rfl
  | cons r cuts ih =>
    rw [List.dropWhile_cons]
    split
    · obtain ⟨hm, hr, hcuts⟩ := ascending_cons.mp h
      exact ascending_mono (ih hcuts) (by omega)
    · exact h

theorem within_minus (htable : ascending m table = true) (hcuts : ascending k cuts = true) :
    Within (minus table cuts) n ↔ Within table n ∧ ¬Within cuts n := by
  induction table generalizing m cuts with
  | nil => simp [minus]
  | cons r more ih =>
    obtain ⟨lo, hi⟩ := r
    obtain ⟨-, hr, hmore⟩ := ascending_cons.mp htable
    have hleft : ascending k (cuts.dropWhile fun r => r.2 < lo) = true :=
      ascending_dropWhile _ hcuts
    have hbehind : Within more n → hi + 1 ≤ n := ascending_le hmore
    have hkept : lo ≤ n → (Within (cuts.dropWhile fun r => r.2 < lo) n ↔ Within cuts n) :=
      within_dropWhile
    rw [minus, within_append, within_without hleft, ih hmore hleft, within_cons]
    grind

theorem inRanges_of_minus (h : minus table cuts = more) (htable : ascending m table = true)
    (hcuts : ascending k cuts = true) :
    inRanges more c = true ↔ inRanges table c = true ∧ inRanges cuts c = false := by
  rw [← Bool.not_eq_true, inRanges_iff, inRanges_iff, inRanges_iff, ← h, within_minus htable hcuts]

end ModuleHost.Text
