import ModuleHost.Proofs.Wrap.Substitution

/-! Edits with an offset inside a character. They are refused unless the only such offset is the end of
the edit that is made last; then all that stood behind it is lost. -/

namespace ModuleHost.Wrap.Edit

open ModuleHost.Text

variable {B E front : List Edit} {e last : Edit} {source : List Char} {c n : Nat} {t : List Char}

/-- The offset falls between two bytes of one character. -/
def Severs (source : List Char) (n : Nat) : Prop :=
  ∃ p c r, source = p ++ c :: r ∧ byteLength p < n ∧ n < byteLength p + c.utf8Size

theorem severs_cons {d : Char} (h : d.utf8Size ≤ n) :
    Severs source (n - d.utf8Size) → Severs (d :: source) n := by
  rintro ⟨p, c, r, rfl, hlo, hhi⟩
  refine ⟨d :: p, c, r, rfl, ?_, ?_⟩ <;> rw [byteLength_cons] <;> omega

theorem boundary_cons {d : Char} (h : d.utf8Size ≤ n) :
    Boundary source (n - d.utf8Size) → Boundary (d :: source) n := by
  rintro ⟨p, r, rfl, hp⟩
  refine ⟨d :: p, r, rfl, ?_⟩
  rw [byteLength_cons]
  omega

theorem Severs.lt (h : Severs source n) : n < byteLength source := by
  obtain ⟨p, c, r, rfl, -, hhi⟩ := h
  rw [byteLength_append, byteLength_cons]
  omega

theorem Severs.not_boundary (h : Severs source n) : ¬Boundary source n := by
  obtain ⟨p, c, r, rfl, hlo, hhi⟩ := h
  rintro ⟨q, s, heq, rfl⟩
  obtain ⟨u, rfl, hu⟩ := prefix_of_byteLength_le heq hlo.le
  rw [byteLength_append] at hlo hhi
  cases u with
  | nil => exact absurd hlo (by simp)
  | cons d u =>
    obtain ⟨rfl, -⟩ := List.cons_eq_cons.mp hu
    rw [byteLength_cons] at hhi
    omega

theorem severs_iff : Severs source n ↔ ¬Cuts source n := by
  refine ⟨fun h hcuts => h.not_boundary (hcuts h.lt.le), fun h => ?_⟩
  obtain ⟨hle, hnot⟩ : n ≤ byteLength source ∧ ¬Boundary source n := by simpa [Cuts] using h
  clear h
  induction source generalizing n with
  | nil =>
    obtain rfl : n = 0 := Nat.le_zero.mp hle
    exact absurd boundary_zero hnot
  | cons d source ih =>
    rw [byteLength_cons] at hle
    by_cases hd : d.utf8Size ≤ n
    · exact severs_cons hd (ih (by omega) fun hcut => hnot (boundary_cons hd hcut))
    · have hpos : n ≠ 0 := by
        rintro rfl
        exact hnot boundary_zero
      refine ⟨[], d, source, rfl, ?_, ?_⟩ <;> rw [byteLength_nil] <;> omega

instance (source : List Char) (n : Nat) : Decidable (Severs source n) :=
  decidable_of_iff _ severs_iff.symm

theorem applyFrom_boundary (h : applyFrom source c (e :: B) = .ok t) :
    Boundary source c ∧ Boundary source e.start := by
  obtain ⟨-, -, -, kept, -, hkept, -, -⟩ := applyFrom_cons_ok h
  obtain ⟨p, r, rfl, rfl, hlength⟩ := slice?_eq_some.mp hkept
  refine ⟨⟨p, kept ++ r, rfl, rfl⟩, p ++ kept, r, by simp, ?_⟩
  rw [byteLength_append, hlength]

theorem applyFrom_boundaries (h : applyFrom source c (front ++ [last]) = .ok t) :
    (∀ e ∈ front, Boundary source e.start ∧ Boundary source e.stop) ∧
      Boundary source last.start := by
  induction front generalizing c t with
  | nil => exact ⟨nofun, (applyFrom_boundary h).2⟩
  | cons e front ih =>
    obtain ⟨-, -, -, -, more, -, hmore, -⟩ := applyFrom_cons_ok h
    have hstart : Boundary source e.start := (applyFrom_boundary h).2
    have hstop : Boundary source e.stop := by
      cases front with
      | nil => exact (applyFrom_boundary hmore).1
      | cons d front => exact (applyFrom_boundary hmore).1
    obtain ⟨hfront, hlast⟩ := ih hmore
    exact ⟨List.forall_mem_cons.mpr ⟨⟨hstart, hstop⟩, hfront⟩, hlast⟩

/-- The edit with all that stands behind it in its range. -/
def toEnd (source : List Char) (e : Edit) : Edit := ⟨e.start, byteLength source, e.text⟩

theorem applyFrom_cons_iff : applyFrom source c (e :: B) = .ok t ↔
    c ≤ e.start ∧ e.start ≤ e.stop ∧ e.stop ≤ byteLength source ∧ ∃ kept more,
      slice? source c e.start = some kept ∧ applyFrom source e.stop B = .ok more ∧
      t = kept ++ e.text.toList ++ more := by
  refine ⟨applyFrom_cons_ok, ?_⟩
  rintro ⟨hstart, hle, hstop, kept, more, hkept, hmore, rfl⟩
  rw [applyFrom_cons hstart hle hstop hkept, hmore]
  rfl

theorem applyFrom_severed (h : Severs source n) :
    applyFrom source n [] = applyFrom source (byteLength source) [] := by
  have hlost : dropBytes? source n = none := by
    rw [← Option.not_isSome_iff_eq_none, ← boundary_iff]
    exact h.not_boundary
  have hnone : dropBytes? source (byteLength source) = some [] :=
    dropBytes?_eq_some.mpr ⟨source, by simp, rfl⟩
  rw [applyFrom, applyFrom, hlost, hnone]
  rfl

theorem applyFrom_toEnd (hsevers : Severs source last.stop) (hle : last.start ≤ last.stop) :
    applyFrom source c (front ++ [last.toEnd source]) = .ok t ↔
      applyFrom source c (front ++ [last]) = .ok t := by
  induction front generalizing c t with
  | nil =>
    have hstop : last.stop ≤ byteLength source := hsevers.lt.le
    simp only [List.nil_append, applyFrom_cons_iff, toEnd, applyFrom_severed hsevers, hle, hstop,
      hle.trans hstop, Nat.le_refl]
  | cons e front ih => simp only [List.cons_append, applyFrom_cons_iff, ih]

theorem sorted_singleton : sorted [e] = [e] := List.mergeSort_singleton _

theorem sorted_toEnd (h : sorted E = front ++ [last]) (hstop : last.stop ≤ byteLength source) :
    sorted (front ++ [last.toEnd source]) = front ++ [last.toEnd source] := by
  have hpair : (front ++ [last]).Pairwise Before := h ▸ sorted_pairwise E
  obtain ⟨hfront, -, hahead⟩ := List.pairwise_append.mp hpair
  refine List.mergeSort_of_pairwise (List.pairwise_append.mpr
    ⟨hfront, List.pairwise_singleton _ _, fun a ha b hb => ?_⟩)
  obtain rfl := List.mem_singleton.mp hb
  have hbefore : Before a last := hahead a ha last List.mem_cons_self
  show Before a _
  rw [before_iff] at hbefore ⊢
  simp only [toEnd]
  omega

theorem applyAll_toEnd (h : sorted E = front ++ [last]) (hsevers : Severs source last.stop)
    (hle : last.start ≤ last.stop) :
    applyAll (front ++ [last.toEnd source]) source = .ok t ↔ applyAll E source = .ok t := by
  rw [applyAll, applyAll, ← sorted, ← sorted, sorted_toEnd h hsevers.lt.le, h]
  exact applyFrom_toEnd hsevers hle

theorem applyAll_ok_iff (hcuts : ∀ e ∈ E, Cuts source e.start ∧ Cuts source e.stop) :
    applyAll E source = .ok t ↔ Separate source E ∧ t = rewritten E 0 source := by
  constructor
  · intro hrun
    have hsep := separate_of_applyAll hrun
    exact ⟨hsep, Except.ok.inj (hrun.symm.trans (applyAll_of_separate hsep hcuts))⟩
  · rintro ⟨hsep, rfl⟩
    exact applyAll_of_separate hsep hcuts

theorem cuts_toEnd (hfront : ∀ e ∈ front, Cuts source e.start ∧ Cuts source e.stop)
    (hlast : Cuts source last.start) :
    ∀ e ∈ front ++ [last.toEnd source], Cuts source e.start ∧ Cuts source e.stop := by
  intro e he
  rcases List.mem_append.mp he with hin | hin
  · exact hfront e hin
  · obtain rfl := List.mem_singleton.mp hin
    exact ⟨hlast, fun _ => boundary_end⟩

/-- Edits of which one has an offset inside a character are made if and only if this is the end of the
last of them alone and they are separate when all behind that edit is taken into its range. This is
then what is made of the text: nothing is left behind that edit. In all other cases they are refused,
whichever edit it is. -/
theorem applyAll_severed_iff (source : List Char) (E : List Edit)
    (h : ∃ e ∈ E, Severs source e.start ∨ Severs source e.stop) (t : List Char) :
    applyAll E source = .ok t ↔
      ∃ front last, sorted E = front ++ [last] ∧
        (∀ e ∈ front, Cuts source e.start ∧ Cuts source e.stop) ∧ Cuts source last.start ∧
        last.start ≤ last.stop ∧ Severs source last.stop ∧
        Separate source (front ++ [last.toEnd source]) ∧
        t = rewritten (front ++ [last.toEnd source]) 0 source := by
  constructor
  · intro hrun
    obtain ⟨e, he, hinside⟩ := h
    have hne : sorted E ≠ [] := List.ne_nil_of_mem (mem_sorted.mpr he)
    obtain ⟨front, last, hsorted⟩ : ∃ front last, sorted E = front ++ [last] :=
      ⟨_, _, (List.dropLast_concat_getLast hne).symm⟩
    have hfrom : applyFrom source 0 (front ++ [last]) = .ok t := hsorted ▸ hrun
    obtain ⟨hfront, hlast⟩ := applyFrom_boundaries hfrom
    have hmem : e ∈ front ++ [last] := hsorted ▸ mem_sorted.mpr he
    -- the offset can only be the end of the last edit
    have hsevers : Severs source last.stop := by
      rcases List.mem_append.mp hmem with hin | hin
      · obtain ⟨hstart, hstop⟩ := hfront e hin
        rcases hinside with hs | hs
        · exact absurd hstart hs.not_boundary
        · exact absurd hstop hs.not_boundary
      · obtain rfl := List.mem_singleton.mp hin
        exact hinside.resolve_left fun hs => hs.not_boundary hlast
    have hle : last.start ≤ last.stop :=
      ((applyFrom_chain hfrom).1 last (List.mem_append_right _ List.mem_cons_self)).2
    have hcuts : ∀ e ∈ front, Cuts source e.start ∧ Cuts source e.stop :=
      fun e he => ⟨fun _ => (hfront e he).1, fun _ => (hfront e he).2⟩
    have hmade := (applyAll_toEnd hsorted hsevers hle).mpr hrun
    exact ⟨front, last, hsorted, hcuts, fun _ => hlast, hle, hsevers,
      (applyAll_ok_iff (cuts_toEnd hcuts fun _ => hlast)).mp hmade⟩
  · rintro ⟨front, last, hsorted, hfront, hlast, hle, hsevers, hmade⟩
    exact (applyAll_toEnd hsorted hsevers hle).mp
      ((applyAll_ok_iff (cuts_toEnd hfront hlast)).mpr hmade)

/-- The end of the last edit falls inside a character, and the rest of the text is gone. -/
theorem tail_dropped : Severs "é;".toList 1 ∧ applyAll [.remove 0 1] "é;".toList = .ok [] := by
  decide +kernel

end ModuleHost.Wrap.Edit
