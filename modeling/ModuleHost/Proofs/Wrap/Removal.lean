import ModuleHost.Proofs.Wrap.Items

/-! Where the body of a module ends, and the line break that a deleted item takes along, which does
not reach into the next item or past the body. -/

namespace ModuleHost.Wrap

open ModuleHost.Syntax ModuleHost.Text ModuleHost.Wrap.Edit

/-- Where the body of a module ends; one that would end inside a character is the whole text. -/
def bodyEnd (source : List Char) (bodyLength : Nat) : Nat :=
  if Boundary source bodyLength then bodyLength else byteLength source

variable {p g t : List Char} {n bodyLength : Nat}

theorem bodyEnd_min (source : List Char) (bodyLength : Nat) :
    bodyEnd source (min bodyLength (byteLength source)) = bodyEnd source bodyLength := by
  rcases Nat.le_total bodyLength (byteLength source) with hle | hle
  · rw [Nat.min_eq_left hle]
  · rw [Nat.min_eq_right hle, bodyEnd, if_pos boundary_end]
    unfold bodyEnd
    split
    · rename_i h
      exact Nat.le_antisymm hle h.le
    · rfl

theorem body_split (source : List Char) (bodyLength : Nat) : ∃ post,
    source = (takeBytes? source bodyLength).getD source ++ post ∧
      byteLength ((takeBytes? source bodyLength).getD source) = bodyEnd source bodyLength := by
  unfold bodyEnd
  split
  · rename_i h
    obtain ⟨q, r, rfl, rfl⟩ := h
    rw [takeBytes?_append]
    exact ⟨r, rfl, rfl⟩
  · rename_i h
    cases htake : takeBytes? source bodyLength with
    | none => exact ⟨[], by simp, rfl⟩
    | some q =>
      obtain ⟨r, hsource, hq⟩ := takeBytes?_eq_some.mp htake
      exact absurd ⟨q, r, hsource, hq⟩ h

def lineBreakLength (left : Nat) : List Char → Nat
  | '\r' :: '\n' :: _ => if 2 ≤ left then 2 else 0
  | '\n' :: _ => if 1 ≤ left then 1 else 0
  | _ => 0

theorem lineBreakAt_append {s : Setting} (h : s.source = p ++ t) :
    s.lineBreakAt (byteLength p) = lineBreakLength (s.bodyLength - byteLength p) t := by
  rw [Setting.lineBreakAt, Stands.sourceFrom_append h]
  rfl

theorem lineBreakLength_bodyEnd (hn : byteLength p ≤ bodyLength) :
    lineBreakLength (bodyLength - byteLength p) t =
      lineBreakLength (bodyEnd (p ++ t) bodyLength - byteLength p) t := by
  unfold bodyEnd
  split
  · rfl
  · rename_i hcut
    -- the body ends inside a character, so not in front of a line break nor within it
    have hoff : ∀ q r, t = q ++ r → bodyLength ≠ byteLength p + byteLength q := by
      rintro q r rfl rfl
      exact hcut ⟨p ++ q, r, by simp, by simp⟩
    have hzero := hoff [] t rfl
    rw [byteLength_append, Nat.add_sub_cancel_left]
    rw [byteLength_nil] at hzero
    unfold lineBreakLength
    split
    · rename_i rest
      have hone : bodyLength ≠ byteLength p + 1 := hoff ['\r'] ('\n' :: rest) rfl
      have htwo : byteLength ('\r' :: '\n' :: rest) = 1 + (1 + byteLength rest) := rfl
      rw [if_pos (by omega), if_pos (by omega)]
    · rename_i rest
      have hone : byteLength ('\n' :: rest) = 1 + byteLength rest := rfl
      rw [if_pos (by omega), if_pos (by omega)]
    · rfl

theorem lineBreakLength_le : lineBreakLength n t ≤ n := by
  unfold lineBreakLength
  split
  · split <;> omega
  · split <;> omega
  · exact Nat.zero_le n

theorem lineBreakLength_zero (hcrlf : ∀ r, g ≠ '\r' :: '\n' :: r) (hlf : ∀ r, g ≠ '\n' :: r)
    (hnext : n = byteLength g ∨ ∃ c ∈ t.head?, isBlank c = false) :
    lineBreakLength n (g ++ t) = 0 := by
  have hblank : ∀ c r, t = c :: r → isBlank c = true → n = byteLength g := by
    rintro c r rfl hc
    rcases hnext with hn | ⟨d, hd, hd'⟩
    · exact hn
    · cases hd
      rw [hc] at hd'
      cases hd'
  unfold lineBreakLength
  split
  · rename_i tail heq
    rcases List.append_eq_cons_iff.mp heq with ⟨rfl, ht⟩ | ⟨g', rfl, ht⟩
    · rw [hblank _ _ ht (by decide)]
      rfl
    · rcases List.append_eq_cons_iff.mp ht.symm with ⟨rfl, hnl⟩ | ⟨g'', rfl, -⟩
      · rw [hblank _ _ hnl (by decide)]
        rfl
      · exact absurd rfl (hcrlf _)
  · rename_i tail heq
    rcases List.append_eq_cons_iff.mp heq with ⟨rfl, ht⟩ | ⟨g', rfl, -⟩
    · rw [hblank _ _ ht (by decide)]
      rfl
    · exact absurd rfl (hlf _)
  · rfl

theorem lineBreakAt_gap {s : Setting} (hs : s.source = p ++ (g ++ t))
    (hp : byteLength p ≤ s.bodyLength) (hroom : byteLength (p ++ g) ≤ bodyEnd s.source s.bodyLength)
    (hnext : bodyEnd s.source s.bodyLength = byteLength (p ++ g) ∨
      ∃ c ∈ t.head?, isBlank c = false) :
    ∃ l, g = l ++ withoutLineBreak g ∧ byteLength l = s.lineBreakAt (byteLength p) := by
  rw [lineBreakAt_append hs, lineBreakLength_bodyEnd hp, ← hs]
  rw [byteLength_append] at hroom hnext
  unfold withoutLineBreak
  split
  · rename_i rest
    have htwo : byteLength ('\r' :: '\n' :: rest) = 1 + (1 + byteLength rest) := rfl
    refine ⟨['\r', '\n'], rfl, ?_⟩
    rw [List.cons_append, List.cons_append, lineBreakLength, if_pos (by omega)]
    rfl
  · rename_i rest
    have hone : byteLength ('\n' :: rest) = 1 + byteLength rest := rfl
    refine ⟨['\n'], rfl, ?_⟩
    rw [List.cons_append, lineBreakLength, if_pos (by omega)]
    rfl
  · rename_i hcrlf hlf
    exact ⟨[], rfl, (lineBreakLength_zero hcrlf hlf (hnext.imp_left (by omega))).symm⟩

end ModuleHost.Wrap
