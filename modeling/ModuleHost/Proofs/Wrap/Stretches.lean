import ModuleHost.Proofs.Wrap.Weave

/-! Stretches of a text in which nothing changes but the metas. -/

namespace ModuleHost.Wrap

open ModuleHost.Syntax ModuleHost.Text ModuleHost.Wrap.Edit

def upTo (text : List Char) (n : Nat) : List Char := (takeBytes? text n).getD []

variable {text kept : List Char} {cursor n : Nat} {spans : List Span} {B : List Edit}

theorem map_ok {ε α β : Type} {f : α → β} {x : Except ε α} {b : β} (h : x.map f = .ok b) :
    ∃ a, x = .ok a ∧ b = f a := by
  cases x with
  | error fault => cases h
  | ok a =>
    cases h
    exact ⟨a, rfl, rfl⟩

theorem upTo_end (text : List Char) : upTo text (byteLength text) = text := by
  have htake : takeBytes? text (byteLength text) = some text :=
    takeBytes?_eq_some.mpr ⟨[], (List.append_nil text).symm, rfl⟩
  rw [upTo, htake]
  rfl

theorem upTo_append (hn : Boundary text n) (more : List Char) :
    upTo (text ++ more) n = upTo text n := by
  obtain ⟨u, v, rfl, rfl⟩ := hn
  rw [List.append_assoc, upTo, upTo, takeBytes?_append, takeBytes?_append]

theorem applyFrom_slice (hkept : slice? text cursor n = some kept) (hB : ∀ e ∈ B.head?, n ≤ e.start) :
    applyFrom text cursor B = (applyFrom text n B).map (kept ++ ·) := by
  obtain ⟨p, r, rfl, rfl, rfl⟩ := slice?_eq_some.mp hkept
  rw [← byteLength_append] at hB ⊢
  exact applyFrom_skip hB

theorem slice?_front {u v : List Char} {lo hi : Nat} (h : slice? (u ++ v) lo hi = some kept)
    (hhi : hi ≤ byteLength u) : slice? u lo hi = some kept := by
  obtain ⟨p, r, heq, rfl, rfl⟩ := slice?_eq_some.mp h
  rw [← byteLength_append] at hhi
  rw [← List.append_assoc] at heq
  obtain ⟨w, rfl, -⟩ := prefix_of_byteLength_le heq.symm hhi
  rw [List.append_assoc]
  exact slice?_append

theorem applyFrom_cut {A X : List Edit} {t : List Char}
    (h : applyFrom text cursor (A ++ X) = .ok t) (hn : Boundary text n) (hcut : Boundary text cursor)
    (hcursor : cursor ≤ n) (hA : ∀ e ∈ A, e.stop ≤ n ∧ Boundary text e.stop)
    (hX : ∀ e ∈ X.head?, n ≤ e.start) :
    ∃ ahead rest, t = ahead ++ rest ∧ applyFrom (upTo text n) cursor A = .ok ahead ∧
      applyFrom text n X = .ok rest := by
  obtain ⟨u, v, rfl, rfl⟩ := hn
  have hupTo : upTo (u ++ v) (byteLength u) = u := by rw [upTo, takeBytes?_append]; rfl
  rw [hupTo]
  induction A generalizing cursor t with
  | nil =>
    obtain ⟨kept, hkept⟩ := hcut.slice ⟨u, v, rfl, rfl⟩ hcursor
    rw [List.nil_append, applyFrom_slice hkept hX] at h
    obtain ⟨rest, hrest, rfl⟩ := map_ok h
    obtain ⟨p, r, rfl, rfl, hlength⟩ := slice?_eq_some.mp (slice?_front hkept (Nat.le_refl _))
    obtain rfl : r = [] := eq_nil_of_byteLength (by simp only [byteLength_append] at hlength; omega)
    refine ⟨kept, rest, rfl, ?_, hrest⟩
    rw [List.append_nil, applyFrom, dropBytes?_append]
    rfl
  | cons e A ih =>
    obtain ⟨⟨hstop, hend⟩, hmore⟩ := List.forall_mem_cons.mp hA
    obtain ⟨hstart, hle, -, kept, more, hkept, hok, rfl⟩ := applyFrom_cons_ok h
    obtain ⟨ahead, rest, rfl, hahead, hrest⟩ := ih hok hend hstop hmore
    refine ⟨kept ++ e.text.toList ++ ahead, rest, (List.append_assoc _ _ _).symm, ?_, hrest⟩
    rw [applyFrom_cons hstart hle hstop (slice?_front hkept (hle.trans hstop)), hahead]
    rfl

/-- Metas from `cursor` on, in order, in a text that can be cut there. -/
structure Ahead (text : List Char) (cursor : Nat) (spans : List Span) : Prop where
  cut : Boundary text cursor
  metas : ∀ span ∈ spans, cursor ≤ span.lo ∧ span.lo < span.hi ∧ Boundary text span.lo ∧
    Boundary text span.hi
  chain : spans.Pairwise fun a b => a.hi ≤ b.lo

namespace Ahead

theorem sorted (h : Ahead text cursor spans) (config : Config) :
    Edit.sorted (metaEdits config spans) = metaEdits config spans := by
  refine List.mergeSort_of_pairwise (List.pairwise_map.mpr (h.chain.imp_of_mem fun ha _ hab => ?_))
  exact before_iff.mpr (.inl ((h.metas _ ha).2.1.trans_le hab))

theorem takeWhile_le : ∀ span ∈ spans.takeWhile (·.hi ≤ n), span.hi ≤ n :=
  fun _ hspan => of_decide_eq_true (List.mem_takeWhile_imp (p := fun b : Span => b.hi ≤ n) hspan)

theorem takeWhile (h : Ahead text cursor spans) {passes : Span → Bool} :
    Ahead text cursor (spans.takeWhile passes) :=
  ⟨h.cut, fun span hspan => h.metas span ((List.takeWhile_sublist _).mem hspan),
    h.chain.sublist (List.takeWhile_sublist _)⟩

theorem edits_behind (h : Ahead text cursor spans) (config : Config) :
    ∀ e ∈ metaEdits config spans, cursor ≤ e.start ∧ e.start ≤ e.stop := by
  intro e he
  obtain ⟨-, span, hspan, hlo, hhi⟩ := mem_metaEdits he
  obtain ⟨hle, hlt, -, -⟩ := h.metas span hspan
  exact ⟨hlo ▸ hle, hlo ▸ hhi ▸ hlt.le⟩

theorem edits_nonempty (h : Ahead text cursor spans) (config : Config) :
    ∀ e ∈ metaEdits config spans, e.start < e.stop := by
  intro e he
  obtain ⟨-, span, hspan, hlo, hhi⟩ := mem_metaEdits he
  exact hlo ▸ hhi ▸ (h.metas span hspan).2.1

theorem edits_in (h : Ahead text cursor spans) (config : Config) (hend : ∀ span ∈ spans, span.hi ≤ n) :
    ∀ e ∈ metaEdits config spans, e.start ≤ e.stop ∧ e.stop ≤ n := by
  intro e he
  obtain ⟨-, span, hspan, -, hhi⟩ := mem_metaEdits he
  exact ⟨(h.edits_behind config e he).2, hhi ▸ hend span hspan⟩

theorem behind (h : Ahead text cursor spans) (hn : Boundary text n)
    (hapart : ∀ span ∈ spans, n ≤ span.lo ∨ span.hi ≤ n) :
    Ahead text n (spans.dropWhile (·.hi ≤ n)) := by
  have hkept : ∀ span ∈ spans.dropWhile (·.hi ≤ n), span ∈ spans :=
    fun _ hspan => (List.dropWhile_sublist _).mem hspan
  have hchain := h.chain.sublist (List.dropWhile_sublist fun span : Span => decide (span.hi ≤ n))
  refine ⟨hn, fun span hspan => ⟨?_, (h.metas span (hkept span hspan)).2⟩, hchain⟩
  -- the first one does not end in front of it, and the others come later
  have hfirst := List.head?_dropWhile_not (fun span : Span => decide (span.hi ≤ n)) spans
  cases hdrop : spans.dropWhile (·.hi ≤ n) with
  | nil =>
    rw [hdrop] at hspan
    cases hspan
  | cons b more =>
    rw [hdrop] at hspan hchain hfirst hkept
    have hb : n ≤ b.lo :=
      (hapart b (hkept b List.mem_cons_self)).resolve_right (of_decide_eq_false hfirst)
    rcases List.mem_cons.mp hspan with rfl | hspan
    · exact hb
    · have hlt := (h.metas b (hkept b List.mem_cons_self)).2.1
      exact (hb.trans hlt.le).trans ((List.pairwise_cons.mp hchain).1 span hspan)

theorem sorted_around {A B : List Span} {X : List Edit} {e : Edit} (h : Ahead text cursor A)
    (config : Config) (hend : ∀ span ∈ A, span.hi ≤ e.start) (he : e.start ≤ e.stop)
    (hlater : ∀ b ∈ X ++ metaEdits config B, e.stop ≤ b.start ∧ b.start ≤ b.stop) :
    Edit.sorted (e :: X ++ metaEdits config (A ++ B)) =
      metaEdits config A ++ (e :: Edit.sorted (X ++ metaEdits config B)) := by
  have hM : (metaEdits config (A ++ B)).Perm (metaEdits config A ++ metaEdits config B) :=
    .of_eq List.map_append
  have hbehind : ∀ b ∈ X ++ metaEdits config B, e.start ≤ b.start ∧ b.start ≤ b.stop :=
    fun b hb => ⟨he.trans (hlater b hb).1, (hlater b hb).2⟩
  have hsplit := sorted_at (G := []) (H := e :: X) hM (fun b hb => (mem_metaEdits hb).1)
    (h.edits_in config hend) (h.edits_nonempty config)
    (List.forall_mem_cons.mpr ⟨⟨Nat.le_refl _, he⟩, hbehind⟩)
  have hfirst : Edit.sorted (e :: X ++ metaEdits config B) =
      e :: Edit.sorted (X ++ metaEdits config B) := sorted_first he hlater
  rw [List.nil_append, List.nil_append, h.sorted config, hfirst] at hsplit
  exact hsplit

theorem sorted_behind {A B : List Span} {X : List Edit} {e : Edit} (h : Ahead text cursor A)
    (config : Config) (hend : ∀ span ∈ A, span.hi ≤ n) (hle : cursor ≤ n)
    (he : e.start ≤ e.stop ∧ e.stop ≤ cursor)
    (hlater : ∀ b ∈ X ++ metaEdits config B, n ≤ b.start ∧ b.start ≤ b.stop) :
    Edit.sorted (e :: X ++ metaEdits config (A ++ B)) =
      e :: (metaEdits config A ++ Edit.sorted (X ++ metaEdits config B)) := by
  have hM : (metaEdits config (A ++ B)).Perm (metaEdits config A ++ metaEdits config B) :=
    .of_eq List.map_append
  have hsplit := sorted_at (G := []) (H := X) hM (fun b hb => (mem_metaEdits hb).1)
    (h.edits_in config hend) (h.edits_nonempty config) hlater
  rw [List.nil_append, List.nil_append, h.sorted config] at hsplit
  have hbehind : ∀ b ∈ X ++ metaEdits config (A ++ B), e.stop ≤ b.start ∧ b.start ≤ b.stop := by
    intro b hb
    rw [← mem_sorted, hsplit] at hb
    rcases List.mem_append.mp hb with hb | hb
    · have hstart := h.edits_behind config b hb
      exact ⟨he.2.trans hstart.1, hstart.2⟩
    · have hstart := hlater b (mem_sorted.mp hb)
      exact ⟨(he.2.trans hle).trans hstart.1, hstart.2⟩
  rw [List.cons_append, sorted_first he.1 hbehind, hsplit]

theorem apply (h : Ahead text cursor spans) (config : Config) (hn : Boundary text n)
    (hcursor : cursor ≤ n) (hend : ∀ span ∈ spans, span.hi ≤ n) (hB : ∀ e ∈ B.head?, n ≤ e.start) :
    applyFrom text cursor (metaEdits config spans ++ B) =
      (applyFrom text n B).map
        (named config.importMetaIdent.toList (upTo text n) cursor spans ++ ·) := by
  obtain ⟨u, v, rfl, rfl⟩ := hn
  have hupTo : upTo (u ++ v) (byteLength u) = u := by rw [upTo, takeBytes?_append]; rfl
  have hcut := h.cut.of_append hcursor
  have hin : ∀ span ∈ spans, span.lo ≤ span.hi ∧ Boundary u span.lo ∧ Boundary u span.hi := by
    intro span hspan
    obtain ⟨-, hlt, hlo, hhi⟩ := h.metas span hspan
    have hle := hend span hspan
    exact ⟨hlt.le, hlo.of_append (hlt.le.trans hle), hhi.of_append hle⟩
  have hnamed := applyFrom_named config hin h.chain hcut fun span hspan => (h.metas span hspan).1
  have hstop : ∀ e ∈ metaEdits config spans, Boundary u e.stop := by
    intro e he
    obtain ⟨-, span, hspan, -, hhi⟩ := mem_metaEdits he
    exact hhi ▸ (hin span hspan).2.2
  have happly := applyFrom_inside (p := []) (r := v) hcut hstop hnamed hB
  rw [hupTo]
  simpa using happly

end Ahead

end ModuleHost.Wrap
