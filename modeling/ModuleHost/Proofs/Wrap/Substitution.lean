import Mathlib.Data.List.Pairwise
import ModuleHost.Proofs.Wrap.Edits

/-! What edits make of a text, one character after the other. They are applied in the order of their
places; what comes out depends on nothing but the texts inserted at each offset, as they were
recorded, and the ranges that give way. -/

namespace ModuleHost.Wrap.Edit

open ModuleHost.Text

variable {a b e : Edit} {A B E S : List Edit} {source p r t u : List Char} {c n : Nat}

def Covers (e : Edit) (n : Nat) : Prop := e.start ≤ n ∧ n < e.stop

def InsertsAt (n : Nat) (e : Edit) : Prop := e.start = n ∧ e.stop = n

def ReplacesAt (n : Nat) (e : Edit) : Prop := e.start = n ∧ n < e.stop

instance (n : Nat) : Decidable (e.Covers n) := inferInstanceAs (Decidable (_ ∧ _))

instance (n : Nat) : Decidable (e.InsertsAt n) := inferInstanceAs (Decidable (_ ∧ _))

instance (n : Nat) : Decidable (e.ReplacesAt n) := inferInstanceAs (Decidable (_ ∧ _))

/-- The insertions at an offset, as they were recorded. -/
def insertions (E : List Edit) (n : Nat) : List Edit := E.filter fun e => e.InsertsAt n

def replacements (E : List Edit) (n : Nat) : List Edit := E.filter fun e => e.ReplacesAt n

def textAt (E : List Edit) (n : Nat) : List Char :=
  (insertions E n ++ replacements E n).flatMap fun e => e.text.toList

/-- A text that starts at an offset, with the edits made: in front of each character goes what is
inserted there and then what stands for a range that starts there, and the characters of such ranges
are left out. -/
def rewritten (E : List Edit) (n : Nat) : List Char → List Char
  | [] => textAt E n
  | c :: rest =>
    textAt E n ++ (if ∃ e ∈ E, e.Covers n then [] else [c]) ++ rewritten E (n + c.utf8Size) rest

/-- Edits that lie in the text and do not get into each other's way. -/
structure Separate (source : List Char) (E : List Edit) : Prop where
  placed : ∀ e ∈ E, e.start ≤ e.stop ∧ e.stop ≤ byteLength source
  disjoint : E.Pairwise fun a b => ¬∃ n, a.Covers n ∧ b.Covers n
  outside : ∀ a ∈ E, ∀ b ∈ E, a.InsertsAt a.start → ¬(b.start < a.start ∧ a.start < b.stop)

instance : Std.Symm Apart := ⟨fun _ _ h => h.symm⟩

theorem apart_iff (ha : a.start ≤ a.stop) (hb : b.start ≤ b.stop) :
    Apart a b ↔ (¬∃ n, a.Covers n ∧ b.Covers n) ∧
      (a.InsertsAt a.start → ¬(b.start < a.start ∧ a.start < b.stop)) ∧
      (b.InsertsAt b.start → ¬(a.start < b.start ∧ b.start < a.stop)) := by
  simp only [Apart, Covers, InsertsAt, true_and]
  constructor
  · intro hapart
    refine ⟨?_, by omega, by omega⟩
    rintro ⟨n, ha, hb⟩
    omega
  · rintro ⟨hshared, ha', hb'⟩
    -- the later of the two starts would be a byte of both
    have hstart : ¬((a.start ≤ max a.start b.start ∧ max a.start b.start < a.stop) ∧
        (b.start ≤ max a.start b.start ∧ max a.start b.start < b.stop)) :=
      fun h => hshared ⟨_, h⟩
    omega

theorem Separate.apart (h : Separate source E) : E.Pairwise Apart := by
  refine h.disjoint.imp_of_mem fun {a b} ha hb hab => ?_
  exact (apart_iff (h.placed a ha).1 (h.placed b hb).1).mpr
    ⟨hab, h.outside a ha b hb, h.outside b hb a ha⟩

theorem separate_of_apart (hplaced : ∀ e ∈ E, e.start ≤ e.stop ∧ e.stop ≤ byteLength source)
    (hapart : E.Pairwise Apart) : Separate source E where
  placed := hplaced
  disjoint := hapart.imp_of_mem fun {a b} ha hb hab =>
    ((apart_iff (hplaced a ha).1 (hplaced b hb).1).mp hab).1
  outside := by
    intro a ha b hb hins
    by_cases heq : a = b
    · subst heq
      omega
    · have hab : Apart a b := hapart.forall ha hb heq
      exact ((apart_iff (hplaced a ha).1 (hplaced b hb).1).mp hab).2.1 hins

theorem Separate.perm (h : Separate source A) (hperm : A.Perm B) : Separate source B :=
  separate_of_apart (fun e he => h.placed e (hperm.mem_iff.mpr he))
    (hperm.pairwise h.apart fun hab => hab.symm)

theorem applyFrom_placed (h : applyFrom source c E = .ok t) :
    ∀ e ∈ E, e.start ≤ e.stop ∧ e.stop ≤ byteLength source := by
  induction E generalizing c t with
  | nil => exact List.forall_mem_nil _
  | cons e E ih =>
    obtain ⟨-, hle, hstop, kept, more, -, hmore, -⟩ := applyFrom_cons_ok h
    exact List.forall_mem_cons.mpr ⟨⟨hle, hstop⟩, ih hmore⟩

theorem separate_of_applyAll (h : applyAll E source = .ok t) : Separate source E :=
  separate_of_apart (fun e he => applyFrom_placed h e (mem_sorted.mpr he)) (applyAll_apart h)

/-- Sorting leaves edits as they were recorded which come no later one than another. -/
theorem filter_sorted {P : Edit → Bool} (h : ∀ a b, P a = true → P b = true → Before a b) :
    (sorted E).filter P = E.filter P := by
  have hordered : (E.filter P).Pairwise Before :=
    List.pairwise_filter.mpr (List.pairwise_of_forall fun a b ha hb => h a b ha hb)
  have hkept : (E.filter P).Sublist ((sorted E).filter P) := by
    have hsub : (E.filter P).Sublist (sorted E) :=
      List.sublist_mergeSort before_trans before_total hordered List.filter_sublist
    simpa only [List.filter_filter, Bool.and_self] using hsub.filter P
  exact (hkept.eq_of_length ((sorted_perm E).filter P).length_eq.symm).symm

theorem insertions_sorted (n : Nat) : insertions (sorted E) n = insertions E n := by
  refine filter_sorted fun a b ha hb => ?_
  have ha : a.InsertsAt n := by simpa using ha
  have hb : b.InsertsAt n := by simpa using hb
  simp only [InsertsAt] at ha hb
  rw [before_iff]
  omega

theorem replacements_perm (h : A.Pairwise Apart) (hperm : A.Perm B) (n : Nat) :
    replacements A n = replacements B n := by
  have hB : B.Pairwise Apart := hperm.pairwise h fun hab => hab.symm
  refine (hperm.filter _).eq_of_pairwise (fun a b ha hb hab _ => ?_) (h.filter _) (hB.filter _)
  have ha : a.ReplacesAt n := by simpa using (List.mem_filter.mp ha).2
  have hb : b.ReplacesAt n := by simpa using (List.mem_filter.mp hb).2
  simp only [Apart, ReplacesAt] at hab ha hb
  omega

theorem rewritten_perm (h : A.Pairwise Apart) (hperm : A.Perm B)
    (hins : ∀ n, insertions A n = insertions B n) (n : Nat) (t : List Char) :
    rewritten A n t = rewritten B n t := by
  have htext : ∀ n, textAt A n = textAt B n := fun n => by
    rw [textAt, textAt, hins, replacements_perm h hperm]
  induction t generalizing n with
  | nil => exact htext n
  | cons c rest ih => simp only [rewritten, htext, ih, hperm.mem_iff]

theorem rewritten_nil (n : Nat) (t : List Char) : rewritten [] n t = t := by
  induction t generalizing n with
  | nil => rfl
  | cons c rest ih => simp [rewritten, ih, textAt, insertions, replacements]

theorem insertions_cons (e : Edit) (S : List Edit) (n : Nat) : insertions (e :: S) n =
    if e.InsertsAt n then e :: insertions S n else insertions S n := by
  simp [insertions, List.filter_cons]

theorem replacements_cons (e : Edit) (S : List Edit) (n : Nat) : replacements (e :: S) n =
    if e.ReplacesAt n then e :: replacements S n else replacements S n := by
  simp [replacements, List.filter_cons]

theorem nothing_ahead (h : ∀ e ∈ E, n < e.start) :
    insertions E n = [] ∧ replacements E n = [] := by
  have hnone : ∀ e ∈ E, ¬e.InsertsAt n ∧ ¬e.ReplacesAt n := by
    intro e he
    have hlt := h e he
    simp only [InsertsAt, ReplacesAt]
    omega
  exact ⟨List.filter_eq_nil_iff.mpr fun e he => by simp [hnone e he],
    List.filter_eq_nil_iff.mpr fun e he => by simp [hnone e he]⟩

theorem textAt_ahead (h : ∀ e ∈ E, n < e.start) : textAt E n = [] := by
  obtain ⟨hins, hrep⟩ := nothing_ahead h
  rw [textAt, hins, hrep]
  rfl

theorem rewritten_skip (h : ∀ e ∈ E, n + byteLength t ≤ e.start) :
    rewritten E n (t ++ r) = t ++ rewritten E (n + byteLength t) r := by
  induction t generalizing n with
  | nil => rfl
  | cons c t ih =>
    have hpos := c.utf8Size_pos
    simp only [byteLength_cons, ← Nat.add_assoc] at h ⊢
    have hlt : ∀ e ∈ E, n < e.start := fun e he => by
      have := h e he
      omega
    have huncovered : ¬∃ e ∈ E, e.Covers n := by
      rintro ⟨e, he, hstart, -⟩
      exact absurd (hlt e he) (Nat.not_lt.mpr hstart)
    rw [List.cons_append, rewritten, textAt_ahead hlt, if_neg huncovered, ih h]
    rfl

theorem rewritten_passed (hstart : e.start < n) (hstop : e.stop ≤ n) (t : List Char) :
    rewritten (e :: S) n t = rewritten S n t := by
  have htext : ∀ m, n ≤ m → textAt (e :: S) m = textAt S m := by
    intro m hm
    have hins : ¬e.InsertsAt m := by
      rw [InsertsAt]
      omega
    have hrep : ¬e.ReplacesAt m := by
      rw [ReplacesAt]
      omega
    rw [textAt, textAt, insertions_cons, replacements_cons, if_neg hins, if_neg hrep]
  induction t generalizing n with
  | nil => exact htext n (Nat.le_refl n)
  | cons c rest ih =>
    have huncovered : ¬e.Covers n := by
      rw [Covers]
      omega
    rw [rewritten, rewritten, htext n (Nat.le_refl n),
      ih (by omega) (by omega) fun m hm => htext m (by omega)]
    simp [huncovered]

theorem rewritten_inside (hstart : e.start < n) (hstop : n + byteLength u = e.stop)
    (hS : ∀ b ∈ S, e.stop ≤ b.start) :
    rewritten (e :: S) n (u ++ r) = rewritten S e.stop r := by
  induction u generalizing n with
  | nil =>
    obtain rfl : n = e.stop := hstop
    exact rewritten_passed hstart (Nat.le_refl _) r
  | cons c u ih =>
    have hpos := c.utf8Size_pos
    rw [byteLength_cons] at hstop
    have hcovered : e.Covers n := ⟨hstart.le, by omega⟩
    have htext : textAt (e :: S) n = [] := by
      have hins : ¬e.InsertsAt n := fun h => absurd h.1 hstart.ne
      have hrep : ¬e.ReplacesAt n := fun h => absurd h.1 hstart.ne
      rw [textAt, insertions_cons, replacements_cons, if_neg hins, if_neg hrep, ← textAt]
      exact textAt_ahead fun b hb => by
        have := hS b hb
        omega
    rw [List.cons_append, rewritten, htext, if_pos ⟨e, List.mem_cons_self, hcovered⟩,
      ih (by omega) (by omega)]
    rfl

theorem rewritten_first (hstop : e.start + byteLength u = e.stop)
    (hS : ∀ b ∈ S, e.stop ≤ b.start) :
    rewritten (e :: S) e.start (u ++ r) = e.text.toList ++ rewritten S e.stop r := by
  cases u with
  | nil =>
    -- an insertion, in front of all else at its offset
    obtain hstop : e.start = e.stop := hstop
    have hins : e.InsertsAt e.start := ⟨rfl, hstop.symm⟩
    have hrep : ¬e.ReplacesAt e.start := fun h => absurd h.2 (by omega)
    have htext : textAt (e :: S) e.start = e.text.toList ++ textAt S e.start := by
      rw [textAt, textAt, insertions_cons, replacements_cons, if_pos hins, if_neg hrep]
      rfl
    have huncovered : ¬e.Covers e.start := fun h => absurd h.2 (by omega)
    rw [← hstop, List.nil_append]
    cases r with
    | nil => exact htext
    | cons c rest =>
      have hpos := c.utf8Size_pos
      rw [rewritten, rewritten, htext, rewritten_passed (by omega) (by omega)]
      simp [huncovered]
  | cons c u =>
    have hpos := c.utf8Size_pos
    rw [byteLength_cons] at hstop
    have hcovered : e.Covers e.start := ⟨Nat.le_refl _, by omega⟩
    have hins : ¬e.InsertsAt e.start := fun h => absurd h.2 (by omega)
    have hrep : e.ReplacesAt e.start := ⟨rfl, by omega⟩
    have htext : textAt (e :: S) e.start = e.text.toList := by
      obtain ⟨hnone, hnone'⟩ : insertions S e.start = [] ∧ replacements S e.start = [] :=
        nothing_ahead fun b hb => by
          have := hS b hb
          omega
      rw [textAt, insertions_cons, replacements_cons, if_neg hins, if_pos hrep, hnone, hnone']
      simp
    rw [List.cons_append, rewritten, htext, if_pos ⟨e, List.mem_cons_self, hcovered⟩,
      rewritten_inside (by omega) (by omega) hS]
    simp

/-- Edits in the order of their places put their texts in the places of their ranges. -/
theorem applyFrom_rewritten
    (hin : ∀ e ∈ S, e.start ≤ e.stop ∧ Boundary (p ++ r) e.start ∧ Boundary (p ++ r) e.stop)
    (hchain : S.Pairwise fun a b => a.stop ≤ b.start) (hstart : ∀ e ∈ S, byteLength p ≤ e.start) :
    applyFrom (p ++ r) (byteLength p) S = .ok (rewritten S (byteLength p) r) := by
  induction S generalizing p r with
  | nil =>
    have hrest : dropBytes? (p ++ r) (byteLength p) = some r := dropBytes?_append
    rw [applyFrom, hrest, rewritten_nil]
    rfl
  | cons e S ih =>
    obtain ⟨⟨hle, ⟨q, r₁, heq, hq⟩, ⟨q', r₂, heq', hq'⟩⟩, hmore⟩ := List.forall_mem_cons.mp hin
    obtain ⟨hfirst, hrest⟩ := List.pairwise_cons.mp hchain
    -- the text kept in front of the edit is `t`, and its range is `u`
    have hahead : byteLength p ≤ e.start := hstart e List.mem_cons_self
    obtain ⟨t, rfl, rfl⟩ := prefix_of_byteLength_le heq (hq.symm ▸ hahead)
    rw [← List.append_assoc] at heq'
    obtain ⟨u, rfl, rfl⟩ := prefix_of_byteLength_le heq' (by omega)
    have htext : p ++ (t ++ (u ++ r₂)) = p ++ t ++ u ++ r₂ := by simp
    have hslice : slice? (p ++ (t ++ (u ++ r₂))) (byteLength p) e.start = some t := by
      rw [← hq, byteLength_append]
      exact slice?_append
    have hstop : e.stop ≤ byteLength (p ++ (t ++ (u ++ r₂))) := (hin e List.mem_cons_self).2.2.le
    have htail := ih (p := p ++ t ++ u) (r := r₂) (htext ▸ hmore) hrest (hq' ▸ hfirst)
    have hskip : ∀ b ∈ e :: S, byteLength p + byteLength t ≤ b.start := by
      rw [← byteLength_append, hq]
      exact List.forall_mem_cons.mpr ⟨Nat.le_refl _, fun b hb => hle.trans (hfirst b hb)⟩
    rw [← htext, hq'] at htail
    rw [applyFrom_cons hahead hle hstop hslice, htail, rewritten_skip hskip,
      ← byteLength_append, hq, rewritten_first _ hfirst]
    · simp [Except.map]
    · rw [← hq', byteLength_append, hq]

def range (e : Edit) : Nat × Nat := (e.start, e.stop)

theorem applyFrom_error {fault : Fault} (hranges : A.map range = B.map range)
    (h : applyFrom source c A = .error fault) : applyFrom source c B = .error fault := by
  induction A generalizing B c with
  | nil => cases h
  | cons a A ih =>
    obtain ⟨b, B, rfl⟩ : ∃ b B', B = b :: B' := by
      cases B with
      | nil => cases hranges
      | cons b B => exact ⟨b, B, rfl⟩
    rw [List.map_cons, List.map_cons, List.cons.injEq, range, range, Prod.mk.injEq] at hranges
    obtain ⟨⟨hstart, hstop⟩, hmore⟩ := hranges
    rw [applyFrom] at h ⊢
    rw [← hstart, ← hstop]
    split at h
    · rename_i hcond
      rw [if_pos hcond]
      exact h
    · rename_i hcond
      rw [if_neg hcond]
      cases hslice : slice? source c a.start with
      | none =>
        rw [hslice] at h
        exact h
      | some kept =>
        rw [hslice] at h
        cases hrest : applyFrom source a.stop A with
        | error earlier =>
          obtain rfl : earlier = fault := by
            rw [hrest] at h
            cases h
            rfl
          rw [ih hmore hrest]
          rfl
        | ok more =>
          rw [hrest] at h
          cases h

theorem ranges_sorted (h : A.Perm B) : (sorted A).map range = (sorted B).map range := by
  have hperm : (sorted A).Perm (sorted B) := ((sorted_perm A).trans h).trans (sorted_perm B).symm
  have hordered : ∀ E : List Edit, ((sorted E).map range).Pairwise
      fun x y => x.1 < y.1 ∨ x.1 = y.1 ∧ x.2 ≤ y.2 := fun E =>
    List.pairwise_map.mpr ((sorted_pairwise E).imp before_iff.mp)
  refine (hperm.map range).eq_of_pairwise (fun x y _ _ hxy hyx => ?_) (hordered A) (hordered B)
  exact Prod.ext (by omega) (by omega)

/-- An offset in the text is one at which it can be cut. -/
def Cuts (source : List Char) (n : Nat) : Prop := n ≤ byteLength source → Boundary source n

instance (source : List Char) (n : Nat) : Decidable (Cuts source n) :=
  inferInstanceAs (Decidable (_ → _))

theorem Separate.fitting (h : Separate source E)
    (hcuts : ∀ e ∈ E, Cuts source e.start ∧ Cuts source e.stop) : Fitting source E where
  inside := by
    intro e he
    obtain ⟨hle, hstop⟩ := h.placed e he
    exact ⟨hle, (hcuts e he).1 (hle.trans hstop), (hcuts e he).2 hstop⟩
  apart := h.apart

theorem applyAll_of_separate (h : Separate source E)
    (hcuts : ∀ e ∈ E, Cuts source e.start ∧ Cuts source e.stop) :
    applyAll E source = .ok (rewritten E 0 source) := by
  have hfit := h.fitting hcuts
  have hrun := applyFrom_rewritten (p := []) (r := source) (S := sorted E)
    (fun e he => hfit.inside e (mem_sorted.mp he)) hfit.chain fun _ _ => Nat.zero_le _
  rw [rewritten_perm hfit.apart (sorted_perm E).symm fun n => (insertions_sorted n).symm]
  exact hrun

/-- Edits at offsets where the text can be cut can be made if and only if they all lie in the text,
no byte gives way to two of them and none inserts inside the range of another. The text is then the
source with each range replaced, where what is inserted at an offset stands behind the text for a
range that ends there and in front of the one for a range that starts there. The order in which they
were recorded does not matter as long as it is kept among the insertions at one offset; a refusal is
the same, too. -/
theorem applyAll_separate (source : List Char) (E : List Edit)
    (hcuts : ∀ e ∈ E, Cuts source e.start ∧ Cuts source e.stop) :
    ((∃ t, applyAll E source = .ok t) ↔ Separate source E) ∧
    (∀ t, applyAll E source = .ok t → t = rewritten E 0 source) ∧
    ∀ E', E'.Perm E → (∀ n, insertions E' n = insertions E n) →
      applyAll E' source = applyAll E source := by
  have hmade : ∀ t, applyAll E source = .ok t → t = rewritten E 0 source := by
    intro t ht
    rw [applyAll_of_separate (separate_of_applyAll ht) hcuts] at ht
    exact (Except.ok.inj ht).symm
  refine ⟨⟨fun ⟨_, ht⟩ => separate_of_applyAll ht, fun h => ⟨_, applyAll_of_separate h hcuts⟩⟩,
    hmade, fun E' hperm hins => ?_⟩
  cases hrun : applyAll E source with
  | error fault => exact applyFrom_error (ranges_sorted hperm.symm) hrun
  | ok t =>
    have hsep := separate_of_applyAll hrun
    have hcuts' : ∀ e ∈ E', Cuts source e.start ∧ Cuts source e.stop :=
      fun e he => hcuts e (hperm.mem_iff.mp he)
    rw [applyAll_of_separate (hsep.perm hperm.symm) hcuts', hmade t hrun,
      ← rewritten_perm hsep.apart hperm.symm fun n => (hins n).symm]

def crowded : List Edit :=
  [⟨5, 7, "c"⟩, insert 5 "=", ⟨4, 5, "b"⟩, insert 7 "!", insert 5 " "]

def reordered : List Edit :=
  [insert 7 "!", insert 5 "=", insert 5 " ", ⟨4, 5, "b"⟩, ⟨5, 7, "c"⟩]

theorem applyAll_separate_crowded :
    (∀ e ∈ crowded, Cuts "let aé;".toList e.start ∧ Cuts "let aé;".toList e.stop) ∧
    Separate "let aé;".toList crowded ∧
    applyAll crowded "let aé;".toList = .ok "let b= c!;".toList ∧
    applyAll reordered "let aé;".toList = applyAll crowded "let aé;".toList := by
  have hcuts : ∀ e ∈ crowded, Cuts "let aé;".toList e.start ∧ Cuts "let aé;".toList e.stop := by
    decide
  have hsep : Separate "let aé;".toList crowded :=
    separate_of_apart (by decide) (by simp [crowded, insert, Apart])
  have hmade : rewritten crowded 0 "let aé;".toList = "let b= c!;".toList := by decide
  have hins : ∀ n, insertions reordered n = insertions crowded n := by
    intro n
    by_cases h : n = 5
    · subst h
      decide
    · simp [reordered, crowded, insertions_cons, InsertsAt, insert, Ne.symm h]
  obtain ⟨hiff, htext, horder⟩ := applyAll_separate "let aé;".toList crowded hcuts
  obtain ⟨t, ht⟩ := hiff.mpr hsep
  obtain rfl : t = "let b= c!;".toList := (htext t ht).trans hmade
  exact ⟨hcuts, hsep, ht, horder reordered (by decide) hins⟩

end ModuleHost.Wrap.Edit
