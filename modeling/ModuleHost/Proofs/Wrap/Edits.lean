import Mathlib.Data.List.Sort
import ModuleHost.Proofs.Text.Offsets
import ModuleHost.Wrap.Edit

/-! Edits in order of their place. Sorting keeps groups of edits apart that stand one behind the
other, and applying a group to the text that it is about is independent of the text around it. -/

namespace ModuleHost.Wrap.Edit

open ModuleHost.Text

variable {a b e : Edit} {A B S X G M : List Edit}

abbrev Before (a b : Edit) : Prop := notAfter a b = true

theorem before_iff : Before a b ↔ a.start < b.start ∨ a.start = b.start ∧ a.stop ≤ b.stop := by
  simp [Before, notAfter]

theorem before_trans (a b c : Edit) (hab : Before a b) (hbc : Before b c) : Before a c := by
  rw [before_iff] at *
  omega

theorem before_total (a b : Edit) : notAfter a b || notAfter b a := by
  rw [Bool.or_eq_true]
  show Before a b ∨ Before b a
  rw [before_iff, before_iff]
  omega

def sorted (edits : List Edit) : List Edit := edits.mergeSort notAfter

theorem sorted_perm (E : List Edit) : (sorted E).Perm E := List.mergeSort_perm E _

theorem mem_sorted {E : List Edit} : e ∈ sorted E ↔ e ∈ E := (sorted_perm E).mem_iff

theorem sorted_pairwise (E : List Edit) : (sorted E).Pairwise Before :=
  List.pairwise_mergeSort before_trans before_total E

theorem insert_behind (h : ∀ b ∈ S, ¬Before a b) :
    (S ++ X).orderedInsert Before a = S ++ X.orderedInsert Before a := by
  induction S with
  | nil => rfl
  | cons b S ih =>
    obtain ⟨hb, hS⟩ := List.forall_mem_cons.mp h
    rw [List.cons_append, List.orderedInsert_cons, if_neg hb, ih hS, List.cons_append]

theorem insert_ahead (h : ∀ b ∈ X, Before a b) :
    (S ++ X).orderedInsert Before a = S.orderedInsert Before a ++ X := by
  induction S with
  | nil =>
    cases X with
    | nil => rfl
    | cons b X =>
      rw [List.nil_append, List.orderedInsert_cons, if_pos (h b List.mem_cons_self)]
      rfl
  | cons b S ih =>
    rw [List.cons_append, List.orderedInsert_cons, List.orderedInsert_cons, ih]
    split <;> rfl

theorem sorted_cons (a : Edit) (E : List Edit) :
    sorted (a :: E) = (sorted E).orderedInsert Before a := by
  obtain ⟨S, X, hcons, hE, hS⟩ := List.mergeSort_cons before_trans before_total a E
  -- the new edit lands behind `S`, all of which is strictly before it
  have hX : ∀ b ∈ X, Before a b := by
    have hpair := sorted_pairwise (a :: E)
    rw [sorted, hcons, List.pairwise_append] at hpair
    exact (List.pairwise_cons.mp hpair.2.1).1
  have hnot : ∀ b ∈ S, ¬Before a b := fun b hb hab => by simpa [hab] using hS b hb
  rw [sorted, sorted, hcons, hE, insert_behind hnot, ← List.nil_append X, insert_ahead hX]
  rfl

theorem sorted_append (G M : List Edit) :
    sorted (G ++ M) = G.foldr (List.orderedInsert Before) (sorted M) := by
  induction G with
  | nil => rfl
  | cons a G ih => rw [List.cons_append, sorted_cons, ih, List.foldr_cons]

theorem foldr_behind (h : ∀ a ∈ G, ∀ b ∈ S, ¬Before a b) :
    G.foldr (List.orderedInsert Before) (S ++ X) =
      S ++ G.foldr (List.orderedInsert Before) X := by
  induction G with
  | nil => rfl
  | cons a G ih =>
    obtain ⟨ha, hG⟩ := List.forall_mem_cons.mp h
    rw [List.foldr_cons, ih hG, insert_behind ha, List.foldr_cons]

theorem foldr_ahead (h : ∀ a ∈ G, ∀ b ∈ X, Before a b) :
    G.foldr (List.orderedInsert Before) (S ++ X) =
      G.foldr (List.orderedInsert Before) S ++ X := by
  induction G with
  | nil => rfl
  | cons a G ih =>
    obtain ⟨ha, hG⟩ := List.forall_mem_cons.mp h
    rw [List.foldr_cons, ih hG, insert_ahead ha, List.foldr_cons]

theorem sorted_of_ahead (h : ∀ a ∈ A, ∀ b ∈ B, Before a b) :
    sorted (A ++ B) = sorted A ++ sorted B := by
  have hA : sorted A = A.foldr (List.orderedInsert Before) [] := by
    simpa [sorted] using sorted_append A []
  rw [sorted_append, hA, ← foldr_ahead (fun a ha b hb => h a ha b (mem_sorted.mp hb)),
    List.nil_append]

theorem sorted_eq_of_perm (h : A.Perm B) {text : String} (hA : ∀ a ∈ A, a.text = text) :
    sorted A = sorted B := by
  have hperm : (sorted A).Perm (sorted B) := ((sorted_perm A).trans h).trans (sorted_perm B).symm
  refine hperm.eq_of_pairwise (fun a b ha hb hab hba => ?_) (sorted_pairwise A) (sorted_pairwise B)
  -- edits at the same place are equal, since their texts agree
  have hta := hA a (mem_sorted.mp ha)
  have htb := hA b (h.mem_iff.mpr (mem_sorted.mp hb))
  rw [before_iff] at hab hba
  cases a
  cases b
  simp only [Edit.mk.injEq] at *
  exact ⟨by omega, by omega, hta.trans htb.symm⟩

theorem sorted_groups {G₁ G₂ M₁ M₂ : List Edit} (hM : M.Perm (M₁ ++ M₂)) {text : String}
    (htext : ∀ m ∈ M, m.text = text) (ahead : ∀ a ∈ G₁ ++ M₁, ∀ b ∈ G₂ ++ M₂, Before a b)
    (behind : ∀ b ∈ G₂, ∀ m ∈ M₁, ¬Before b m) :
    sorted (G₁ ++ G₂ ++ M) = sorted (G₁ ++ M₁) ++ sorted (G₂ ++ M₂) := by
  have hM₁₂ : sorted M = sorted M₁ ++ sorted M₂ := by
    rw [sorted_eq_of_perm hM htext]
    exact sorted_of_ahead fun a ha b hb =>
      ahead a (List.mem_append_right _ ha) b (List.mem_append_right _ hb)
  -- the later group passes all metas of the earlier one
  have hG₂ : G₂.foldr (List.orderedInsert Before) (sorted M₁ ++ sorted M₂) =
      sorted M₁ ++ sorted (G₂ ++ M₂) := by
    rw [foldr_behind (fun b hb m hm => behind b hb m (mem_sorted.mp hm)), ← sorted_append]
  rw [sorted_append, List.foldr_append, hM₁₂, hG₂, foldr_ahead, ← sorted_append]
  intro a ha b hb
  exact ahead a (List.mem_append_left _ ha) b (mem_sorted.mp hb)

/-- Edits that come before a place are sorted before those behind it. An insertion at the place may be
on either side. -/
theorem sorted_at {G H M₁ M₂ : List Edit} {n : Nat} {text : String} (hM : M.Perm (M₁ ++ M₂))
    (htext : ∀ m ∈ M, m.text = text) (hfront : ∀ a ∈ G ++ M₁, a.start ≤ a.stop ∧ a.stop ≤ n)
    (hstrict : ∀ m ∈ M₁, m.start < m.stop)
    (hbehind : ∀ b ∈ H ++ M₂, n ≤ b.start ∧ b.start ≤ b.stop) :
    sorted (G ++ H ++ M) = sorted (G ++ M₁) ++ sorted (H ++ M₂) := by
  refine sorted_groups hM htext (fun a ha b hb => ?_) fun b hb m hm => ?_
  · have ha := hfront a ha
    have hb := hbehind b hb
    rw [before_iff]
    omega
  · have hm' := hfront m (List.mem_append_right _ hm)
    have hlt := hstrict m hm
    have hb := hbehind b (List.mem_append_left _ hb)
    rw [before_iff]
    omega

theorem sorted_first (ha : a.start ≤ a.stop) (h : ∀ b ∈ X, a.stop ≤ b.start ∧ b.start ≤ b.stop) :
    sorted (a :: X) = a :: sorted X := by
  have hone : sorted [a] = [a] := List.mergeSort_singleton _
  have hahead := sorted_of_ahead (A := [a]) (B := X) fun e he b hb => by
    obtain rfl := List.mem_singleton.mp he
    obtain ⟨hstart, hle⟩ := h b hb
    rw [before_iff]
    omega
  rwa [hone] at hahead

/-- One of the two edits ends before the other starts. -/
def Apart (a b : Edit) : Prop := a.stop ≤ b.start ∨ b.stop ≤ a.start

structure Fitting (text : List Char) (E : List Edit) : Prop where
  inside : ∀ e ∈ E, e.start ≤ e.stop ∧ Boundary text e.start ∧ Boundary text e.stop
  apart : E.Pairwise Apart

theorem Fitting.chain {text : List Char} {E : List Edit} (h : Fitting text E) :
    (sorted E).Pairwise fun a b => a.stop ≤ b.start := by
  have hapart : (sorted E).Pairwise Apart :=
    (sorted_perm E).symm.pairwise h.apart fun hab => hab.symm
  refine ((sorted_pairwise E).and hapart).imp_of_mem fun {a b} ha hb hab => ?_
  have hsa := (h.inside a (mem_sorted.mp ha)).1
  have hsb := (h.inside b (mem_sorted.mp hb)).1
  obtain ⟨hbefore, hor⟩ := hab
  rw [before_iff] at hbefore
  rcases hor with hor | hor <;> omega

/-- An edit for a text that stands behind the first `n` bytes of another. -/
def shift (n : Nat) (e : Edit) : Edit := ⟨n + e.start, n + e.stop, e.text⟩

@[simp] theorem shift_start (n : Nat) (e : Edit) : (shift n e).start = n + e.start := rfl

@[simp] theorem shift_stop (n : Nat) (e : Edit) : (shift n e).stop = n + e.stop := rfl

@[simp] theorem shift_text (n : Nat) (e : Edit) : (shift n e).text = e.text := rfl

variable {p q r t u v source text : List Char} {c : Nat}

theorem applyFrom_cons (h : c ≤ e.start) (hle : e.start ≤ e.stop)
    (hstop : e.stop ≤ byteLength source) (hkept : slice? source c e.start = some t) :
    applyFrom source c (e :: B) =
      (applyFrom source e.stop B).map (t ++ e.text.toList ++ ·) := by
  have hnot : ¬(e.start < c || byteLength source < e.stop || e.stop < e.start) = true := by
    simp only [Bool.or_eq_true, decide_eq_true_eq]
    omega
  rw [applyFrom, if_neg hnot]
  simp only [hkept]
  cases applyFrom source e.stop B <;> rfl

theorem applyFrom_cons_ok {done : List Char} (h : applyFrom source c (e :: B) = .ok done) :
    c ≤ e.start ∧ e.start ≤ e.stop ∧ e.stop ≤ byteLength source ∧ ∃ kept more,
      slice? source c e.start = some kept ∧ applyFrom source e.stop B = .ok more ∧
      done = kept ++ e.text.toList ++ more := by
  rw [applyFrom] at h
  split at h
  · cases h
  · rename_i hcond
    simp only [Bool.or_eq_true, decide_eq_true_eq, not_or, Nat.not_lt] at hcond
    cases hs : slice? source c e.start with
    | none =>
      rw [hs] at h
      cases h
    | some kept =>
      rw [hs] at h
      cases hm : applyFrom source e.stop B with
      | error fault =>
        rw [hm] at h
        cases h
      | ok more =>
        rw [hm] at h
        cases h
        exact ⟨hcond.1.1, hcond.2, hcond.1.2, kept, more, rfl, rfl, rfl⟩

theorem applyFrom_insert {n : Nat} (hn : Boundary text n) (new : String) (B : List Edit) :
    applyFrom text n (.insert n new :: B) = (applyFrom text n B).map (new.toList ++ ·) := by
  obtain ⟨none, hnone⟩ := hn.slice hn (Nat.le_refl _)
  obtain ⟨_, _, -, -, hlength⟩ := slice?_eq_some.mp hnone
  obtain rfl : none = [] := eq_nil_of_byteLength (Nat.add_eq_left.mp hlength)
  exact applyFrom_cons (e := .insert n new) (Nat.le_refl _) (Nat.le_refl _) hn.le hnone

theorem applyFrom_ok {E : List Edit}
    (hin : ∀ e ∈ E, e.start ≤ e.stop ∧ Boundary source e.start ∧ Boundary source e.stop)
    (hchain : E.Pairwise fun a b => a.stop ≤ b.start) (hc : Boundary source c)
    (hstart : ∀ e ∈ E, c ≤ e.start) : ∃ t, applyFrom source c E = .ok t := by
  induction E generalizing c with
  | nil => exact ⟨_, rfl⟩
  | cons e E ih =>
    obtain ⟨⟨hle, hlo, hhi⟩, hmore⟩ := List.forall_mem_cons.mp hin
    obtain ⟨hfirst, hrest⟩ := List.pairwise_cons.mp hchain
    obtain ⟨kept, hkept⟩ := hc.slice hlo (hstart e List.mem_cons_self)
    obtain ⟨t, ht⟩ := ih hmore hrest hhi hfirst
    refine ⟨kept ++ e.text.toList ++ t, ?_⟩
    rw [applyFrom_cons (hstart e List.mem_cons_self) hle hhi.le hkept, ht]
    rfl

theorem applyFrom_chain {E : List Edit} (h : applyFrom source c E = .ok t) :
    (∀ e ∈ E, c ≤ e.start ∧ e.start ≤ e.stop) ∧ E.Pairwise fun a b => a.stop ≤ b.start := by
  induction E generalizing c t with
  | nil => exact ⟨nofun, .nil⟩
  | cons e E ih =>
    obtain ⟨hstart, hle, -, kept, more, -, hmore, -⟩ := applyFrom_cons_ok h
    obtain ⟨hrest, hchain⟩ := ih hmore
    refine ⟨List.forall_mem_cons.mpr ⟨⟨hstart, hle⟩, fun b hb => ⟨?_, (hrest b hb).2⟩⟩,
      List.pairwise_cons.mpr ⟨fun b hb => (hrest b hb).1, hchain⟩⟩
    exact (hstart.trans hle).trans (hrest b hb).1

theorem applyAll_apart {E : List Edit} (h : applyAll E text = .ok t) : E.Pairwise Apart :=
  (sorted_perm E).pairwise ((applyFrom_chain h).2.imp .inl) fun hab => hab.symm

theorem Fitting.applyAll_ok {E : List Edit} (h : Fitting text E) :
    ∃ t, applyAll E text = .ok t := by
  refine applyFrom_ok (fun e he => ?_) h.chain boundary_zero fun _ _ => Nat.zero_le _
  exact h.inside e (mem_sorted.mp he)

theorem slice?_skip {n : Nat} (h : byteLength (p ++ t) ≤ n) :
    slice? (p ++ (t ++ r)) (byteLength p) n =
      (slice? (p ++ (t ++ r)) (byteLength (p ++ t)) n).map (t ++ ·) := by
  cases hs : slice? (p ++ (t ++ r)) (byteLength (p ++ t)) n with
  | some k =>
    obtain ⟨q, r', heq, hq, hn⟩ := slice?_eq_some.mp hs
    rw [← List.append_assoc] at heq
    obtain ⟨rfl, rfl⟩ := append_inj_of_byteLength heq hq.symm
    refine slice?_eq_some.mpr ⟨p, r', by simp, rfl, ?_⟩
    rw [byteLength_append] at hn ⊢
    omega
  | none =>
    rw [Option.map_none, Option.eq_none_iff_forall_not_mem]
    intro k hk
    obtain ⟨q, r', heq, hq, hn⟩ := slice?_eq_some.mp hk
    obtain ⟨rfl, heq'⟩ := append_inj_of_byteLength heq hq.symm
    rw [byteLength_append] at h
    obtain ⟨w, rfl, rfl⟩ := prefix_of_byteLength_le heq' (by omega)
    have hsome : slice? (p ++ (t ++ (w ++ r'))) (byteLength (p ++ t)) n = some w := by
      refine slice?_eq_some.mpr ⟨p ++ t, r', by simp, rfl, ?_⟩
      rw [byteLength_append] at hn ⊢
      omega
    rw [hsome] at hs
    cases hs

theorem applyFrom_skip (h : ∀ e ∈ B.head?, byteLength (p ++ t) ≤ e.start) :
    applyFrom (p ++ (t ++ r)) (byteLength p) B =
      (applyFrom (p ++ (t ++ r)) (byteLength (p ++ t)) B).map (t ++ ·) := by
  cases B with
  | nil =>
    have hp : dropBytes? (p ++ (t ++ r)) (byteLength p) = some (t ++ r) := dropBytes?_append
    have hpt : dropBytes? (p ++ (t ++ r)) (byteLength (p ++ t)) = some r := by
      rw [← List.append_assoc]
      exact dropBytes?_append
    rw [applyFrom, applyFrom, hp, hpt]
    rfl
  | cons e B =>
    have hstart : byteLength (p ++ t) ≤ e.start := h e rfl
    have hle : byteLength p ≤ byteLength (p ++ t) := by
      rw [byteLength_append]
      exact Nat.le_add_right _ _
    have hcond : ∀ c, c ≤ e.start →
        (e.start < c || byteLength (p ++ (t ++ r)) < e.stop || e.stop < e.start) =
          (byteLength (p ++ (t ++ r)) < e.stop || e.stop < e.start) := by
      intro c hc
      have hnot : decide (e.start < c) = false := by
        rw [decide_eq_false_iff_not]
        omega
      rw [hnot, Bool.false_or]
    rw [applyFrom, applyFrom, hcond _ (hle.trans hstart), hcond _ hstart, slice?_skip hstart]
    split
    · rfl
    · cases slice? (p ++ (t ++ r)) (byteLength (p ++ t)) e.start with
      | none => rfl
      | some k =>
        simp only [Option.map_some]
        cases applyFrom (p ++ (t ++ r)) e.stop B with
        | error fault => rfl
        | ok more => simp [Except.map, bind, Except.bind, pure, Except.pure]

/-- A group of edits that stays inside a text does the same wherever this text stands. -/
theorem applyFrom_inside {E : List Edit} {done : List Char} (hc : Boundary text c)
    (hstop : ∀ e ∈ E, Boundary text e.stop) (hE : applyFrom text c E = .ok done)
    (hB : ∀ e ∈ B.head?, byteLength (p ++ text) ≤ e.start) :
    applyFrom (p ++ (text ++ r)) (byteLength p + c) (E.map (shift (byteLength p)) ++ B) =
      (applyFrom (p ++ (text ++ r)) (byteLength (p ++ text)) B).map (done ++ ·) := by
  induction E generalizing c done with
  | nil =>
    obtain ⟨u, v, rfl, rfl⟩ := hc
    have hdone : dropBytes? (u ++ v) (byteLength u) = some v := dropBytes?_append
    obtain rfl : v = done := by
      rw [applyFrom, hdone] at hE
      cases hE
      rfl
    -- the rest of the text is kept by the first edit behind it
    have hskip := applyFrom_skip (p := p ++ u) (t := v) (r := r) (B := B)
      (by simpa [Nat.add_assoc] using hB)
    simpa [Nat.add_assoc] using hskip
  | cons e E ih =>
    obtain ⟨hstart, hle, hlen, kept, more, hkept, hmore, rfl⟩ := applyFrom_cons_ok hE
    obtain ⟨hstopE, hstops⟩ := List.forall_mem_cons.mp hstop
    obtain ⟨q, r', heq, hq, hkeptlen⟩ := slice?_eq_some.mp hkept
    have hslice : slice? (p ++ (text ++ r)) (byteLength p + c) (byteLength p + e.start) =
        some kept := by
      refine slice?_eq_some.mpr ⟨p ++ q, r' ++ r, by simp [heq], by simp [hq], by omega⟩
    have hend : (shift (byteLength p) e).stop ≤ byteLength (p ++ (text ++ r)) := by
      simp only [shift_stop, byteLength_append]
      omega
    rw [List.map_cons, List.cons_append, applyFrom_cons (Nat.add_le_add_left hstart _)
      (Nat.add_le_add_left hle _) hend hslice]
    show (applyFrom (p ++ (text ++ r)) (byteLength p + e.stop) _).map _ = _
    rw [ih hstopE hstops hmore]
    cases applyFrom (p ++ (text ++ r)) (byteLength (p ++ text)) B with
    | error fault => rfl
    | ok tail => simp [Except.map]

end ModuleHost.Wrap.Edit
