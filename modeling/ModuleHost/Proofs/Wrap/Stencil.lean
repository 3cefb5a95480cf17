import Mathlib.Data.List.Infix
import Mathlib.Tactic.Common

/-! Texts with places left open for a name. What is found in such a text whatever the name is stands
there by itself: there is a name that the rest of the text does not imitate. -/

namespace ModuleHost.Wrap

section

variable {α : Type} [DecidableEq α] {a b : α} {needle p s t : List α}

/-- How often a text is found in another. -/
def occurrences (needle text : List α) : Nat := text.tails.countP (needle <+: ·)

theorem occurrences_nil (h : needle ≠ []) : occurrences needle [] = 0 := by
  simp [occurrences, h]

theorem occurrences_cons : occurrences needle (a :: t) =
    occurrences needle t + if needle <+: a :: t then 1 else 0 := by
  simp [occurrences, List.countP_cons]

theorem occurrences_skip (h : ¬ needle <+: a :: t) :
    occurrences needle (a :: t) = occurrences needle t := by
  rw [occurrences_cons, if_neg h, Nat.add_zero]

theorem occurrences_pos : 0 < occurrences needle t ↔ needle <:+: t := by
  simp [occurrences, List.countP_pos_iff, List.infix_iff_prefix_suffix, and_comm]

theorem occurrences_le_append : occurrences needle t ≤ occurrences needle (s ++ t) := by
  induction s with
  | nil => exact Nat.le_refl _
  | cons a s ih =>
    rw [List.cons_append, occurrences_cons]
    exact ih.trans (Nat.le_add_right _ _)

theorem occurrences_cons_cons_le : occurrences (a :: needle) (b :: t) ≤ occurrences needle t := by
  induction t generalizing b with
  | nil =>
    rw [occurrences_cons, occurrences_nil (List.cons_ne_nil a needle)]
    by_cases h : needle = []
    · subst h
      have hone : occurrences ([] : List α) [] = 1 := by simp [occurrences]
      rw [Nat.zero_add, hone]
      split <;> decide
    · rw [if_neg fun hall => h (List.prefix_nil.mp (List.cons_prefix_cons.mp hall).2)]
      exact Nat.zero_le _
  | cons c t ih =>
    rw [occurrences_cons, @occurrences_cons α _ c needle t]
    refine Nat.add_le_add ih ?_
    by_cases h : needle <+: c :: t
    · rw [if_pos h]
      split <;> decide
    · rw [if_neg h, if_neg fun hall => h (List.cons_prefix_cons.mp hall).2]

theorem occurrences_append_le : occurrences (p ++ needle) t ≤ occurrences needle t := by
  induction p with
  | nil => exact Nat.le_refl _
  | cons a p ih =>
    cases t with
    | nil =>
      rw [List.cons_append, occurrences_nil (List.cons_ne_nil _ _)]
      exact Nat.zero_le _
    | cons b t =>
      refine (occurrences_cons_cons_le.trans ?_).trans ih
      exact occurrences_le_append (s := [b])

end

abbrev Stencil := List (Option Char)

namespace Stencil

section

variable {name text : List Char} {needle t u : Stencil} {n k : Nat} {c : Char}

def fill (name : List Char) (t : Stencil) : List Char := t.flatMap fun c => c.elim name fun c => [c]

def solid (text : List Char) : Stencil := text.map some

theorem fill_append : fill name (t ++ u) = fill name t ++ fill name u := List.flatMap_append

theorem fill_solid : fill name (solid text) = text := by
  simp [fill, solid, List.flatMap_map]

theorem fill_open : fill name (none :: t) = name ++ fill name t := rfl

theorem fill_some : fill name (some c :: t) = c :: fill name t := rfl

theorem fill_infix (h : needle <:+: t) : fill name needle <:+: fill name t := by
  obtain ⟨a, b, rfl⟩ := h
  exact ⟨fill name a, fill name b, by rw [fill_append, fill_append]⟩

theorem fill_isPrefix (h : needle <+: t) : fill name needle <+: fill name t := by
  obtain ⟨b, rfl⟩ := h
  exact ⟨fill name b, fill_append.symm⟩

theorem occurrences_le_fill (h : needle.head?.join = some c) :
    occurrences needle t ≤ occurrences (fill name needle) (fill name t) := by
  induction t with
  | nil =>
    cases needle with
    | nil => cases h
    | cons d needle => simp [occurrences_nil]
  | cons d t ih =>
    cases d with
    | none =>
      have hneedle : ¬ needle <+: none :: t := by
        rintro ⟨u, hu⟩
        cases needle with
        | nil => cases h
        | cons d needle =>
          cases hu
          cases h
      rw [occurrences_skip hneedle, fill_open]
      exact ih.trans occurrences_le_append
    | some d =>
      rw [fill_some, occurrences_cons, occurrences_cons]
      refine Nat.add_le_add ih ?_
      split
      · rename_i hprefix
        rw [if_pos (fill_some ▸ fill_isPrefix hprefix)]
      · exact Nat.zero_le _

def longName (n : Nat) : List Char := '\n' :: List.replicate n '\r'

theorem replicate_isPrefix (h : List.replicate k '\r' <+: fill (longName n) t) :
    k ≤ t.count (some '\r') := by
  induction t generalizing k with
  | nil =>
    have hlength := h.length_le
    rw [List.length_replicate] at hlength
    exact hlength.trans (Nat.zero_le _)
  | cons d t ih =>
    cases k with
    | zero => exact Nat.zero_le _
    | succ k =>
      rw [List.replicate_succ] at h
      cases d with
      | none => exact absurd (List.cons_prefix_cons.mp h).1 (by decide)
      | some d =>
        obtain ⟨rfl, hrest⟩ := List.cons_prefix_cons.mp h
        rw [List.count_cons_self]
        exact Nat.succ_le_succ (ih hrest)

theorem prefix_of_fill (hn : t.count (some '\r') < n) (hline : some '\n' ∉ needle)
    (h : fill (longName n) needle <+: fill (longName n) t) : needle <+: t := by
  induction needle generalizing t with
  | nil => exact List.nil_prefix
  | cons a needle ih =>
    obtain ⟨hhead, hrest⟩ := not_or.mp (mt List.mem_cons.mpr hline)
    cases t with
    | nil =>
      have hnone := List.prefix_nil.mp h
      cases a <;> cases hnone
    | cons b t =>
      cases a with
      | none =>
        cases b with
        | none =>
          rw [fill_open, fill_open, List.prefix_append_right_inj] at h
          rw [List.count_cons_of_ne (by simp)] at hn
          exact List.cons_prefix_cons.mpr ⟨rfl, ih hn hrest h⟩
        | some b =>
          -- the name cannot be made up of what stands behind a line feed in the stencil
          obtain ⟨rfl, hname⟩ := List.cons_prefix_cons.mp h
          rw [List.count_cons_of_ne (by decide)] at hn
          have hrun := replicate_isPrefix ((List.prefix_append _ _).trans hname)
          omega
      | some a =>
        cases b with
        | none =>
          obtain ⟨rfl, -⟩ := List.cons_prefix_cons.mp h
          exact absurd rfl hhead
        | some b =>
          obtain ⟨rfl, hnext⟩ := List.cons_prefix_cons.mp h
          have hle := List.count_le_count_cons (a := some '\r') (b := some a) (l := t)
          exact List.cons_prefix_cons.mpr ⟨rfl, ih (hle.trans_lt hn) hrest hnext⟩

/-- A text is found under a long name where it stands in the stencil and nowhere else. -/
theorem occurrences_fill (hn : t.count (some '\r') < n) (hne : needle ≠ [])
    (hline : some '\n' ∉ needle) (hreturn : some '\r' ∉ needle) :
    occurrences (fill (longName n) needle) (fill (longName n) t) = occurrences needle t := by
  obtain ⟨d, u, hd, hfill⟩ : ∃ d u, d ≠ '\r' ∧ fill (longName n) needle = d :: u := by
    cases needle with
    | nil => exact absurd rfl hne
    | cons a needle =>
      cases a with
      | none => exact ⟨'\n', _, by decide, rfl⟩
      | some a => exact ⟨a, _, fun h => List.ne_of_not_mem_cons hreturn (h ▸ rfl), rfl⟩
  -- the carriage returns of the name hold no beginning of the text
  have hskip : ∀ k s, occurrences (fill (longName n) needle) (List.replicate k '\r' ++ s) =
      occurrences (fill (longName n) needle) s := by
    intro k s
    induction k with
    | zero => rfl
    | succ k ih =>
      rw [List.replicate_succ, List.cons_append, occurrences_skip, ih]
      rw [hfill]
      exact fun h => hd (List.cons_prefix_cons.mp h).1
  have hprefix : ∀ t : Stencil, t.count (some '\r') < n →
      (fill (longName n) needle <+: fill (longName n) t ↔ needle <+: t) :=
    fun t ht => ⟨prefix_of_fill ht hline, fill_isPrefix⟩
  induction t with
  | nil =>
    rw [occurrences_nil hne, hfill]
    exact occurrences_nil (List.cons_ne_nil d u)
  | cons c t ih =>
    have hhead := hprefix (c :: t) hn
    have hle := List.count_le_count_cons (a := some '\r') (b := c) (l := t)
    have hrest := ih (hle.trans_lt hn)
    cases c with
    | none =>
      have hopen : fill (longName n) (none :: t) =
          '\n' :: (List.replicate n '\r' ++ fill (longName n) t) := rfl
      rw [hopen, occurrences_cons, hskip, occurrences_cons, hrest, ← hopen]
      congr 1
      exact if_congr hhead rfl rfl
    | some c =>
      rw [fill_some, occurrences_cons, occurrences_cons, hrest]
      congr 1
      exact if_congr hhead rfl rfl

end

end Stencil

end ModuleHost.Wrap
