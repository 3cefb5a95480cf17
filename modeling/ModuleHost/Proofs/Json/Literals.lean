import Mathlib.Data.List.TakeWhile
import ModuleHost.Json.Quote
import ModuleHost.Json.Read
import ModuleHost.Proofs.Text.Offsets

/-! A string literal is read back as the string that it was written for, whatever follows it, so
that one literal does not begin another. -/

namespace ModuleHost.Json

open ModuleHost.Text

namespace Read

section

variable {α β : Type} {action : Read α} {a : α} {s s' : Input} {c : Char} {rest : List Char}
  {offset depth fuel : Nat}

/-- An action takes a text off and answers with a value, whatever follows. -/
def Takes (action : Read α) (text : List Char) (a : α) : Prop :=
  ∀ rest offset depth, action ⟨text ++ rest, offset, depth⟩ =
    .ok a ⟨rest, offset + byteLength text, depth⟩

theorem Takes.eq {t u v w : List Char} {b : α} (ht : Takes action t a) (hu : Takes action u b)
    (h : t ++ v = u ++ w) : a = b ∧ v = w := by
  have hrun := ht v 0 0
  rw [h, hu w 0 0] at hrun
  injection hrun with hab hinput
  injection hinput with hrest
  exact ⟨hab.symm, hrest.symm⟩

theorem bind_ok {f : α → Read β} (h : action s = .ok a s') : (action >>= f) s = f a s' := by
  simp only [bind, EStateM.bind, h]

theorem advance_cons :
    advance ⟨c :: rest, offset, depth⟩ = .ok () ⟨rest, offset + c.utf8Size, depth⟩ := rfl

theorem peek_head : peek s = .ok s.rest.head? s := rfl

theorem get_ok : (get : Read Input) s = .ok s s := rfl

theorem escapeChar_simple {e : Char} (h : simpleEscape? c = some e) (hu : c ≠ 'u') :
    Takes escapeChar [c] e := by
  intro rest offset depth
  rw [escapeChar, bind_ok peek_head]
  simp only [List.cons_append, List.head?_cons, h]
  rfl

theorem hexValue?_hexDigit : ∀ n < 32, hexValue? (hexDigit (n / 16)) = some (n / 16) ∧
    hexValue? (hexDigit (n % 16)) = some (n % 16) := by decide

theorem hexEscape_digits {v w x y : Char} {d e f g : Nat} (hv : hexValue? v = some d)
    (hw : hexValue? w = some e) (hx : hexValue? x = some f) (hy : hexValue? y = some g) :
    Takes hexEscape [v, w, x, y] (((d * 16 + e) * 16 + f) * 16 + g) := by
  intro rest offset depth
  have hlength : ¬ byteLength ((Input.mk ([v, w, x, y] ++ rest) offset depth).rest.take 4) < 4 := by
    show ¬ byteLength [v, w, x, y] < 4
    have := v.utf8Size_pos
    have := w.utf8Size_pos
    have := x.utf8Size_pos
    have := y.utf8Size_pos
    simp only [byteLength_cons, byteLength_nil]
    omega
  rw [hexEscape, bind_ok get_ok, if_neg hlength]
  simp only [List.cons_append, List.nil_append, hv, hw, hx, hy]
  show EStateM.Result.ok _ (Input.mk rest
    (offset + v.utf8Size + w.utf8Size + x.utf8Size + y.utf8Size) depth) = _
  simp only [byteLength_cons, byteLength_nil, Nat.add_assoc, Nat.add_zero]

theorem unicodeEscape_control {text : List Char} (h : Takes hexEscape text c.toNat)
    (hc : c.toNat < 32) : Takes unicodeEscape text c := by
  intro rest offset depth
  have hlow : c.toNat < 0xD800 := by omega
  have hsurrogate : ¬ 0xDC00 ≤ c.toNat := by omega
  rw [unicodeEscape, bind_ok (h rest offset depth)]
  simp only [hsurrogate, hlow, decide_false, Bool.false_and, Bool.false_eq_true, if_false,
    decide_true, Bool.true_or, if_true, Char.ofNat_toNat]
  rfl

theorem escapeChar_code (h : c.toNat < 32) :
    Takes escapeChar ['u', '0', '0', hexDigit (c.toNat / 16), hexDigit (c.toNat % 16)] c := by
  intro rest offset depth
  obtain ⟨hhigh, hlow⟩ := hexValue?_hexDigit c.toNat h
  have hzero : hexValue? '0' = some 0 := rfl
  have hcode := hexEscape_digits hzero hzero hhigh hlow
  have hvalue : ((0 * 16 + 0) * 16 + c.toNat / 16) * 16 + c.toNat % 16 = c.toNat := by omega
  rw [hvalue] at hcode
  rw [escapeChar, bind_ok peek_head]
  show (advance >>= fun _ => unicodeEscape) _ = _
  rw [List.cons_append, bind_ok advance_cons, unicodeEscape_control hcode h]
  simp only [byteLength_cons, Nat.add_assoc]

theorem isPlain_iff : isPlain c = true ↔ c.toNat ≠ 0x22 ∧ c ≠ '\\' ∧ 0x20 ≤ c.toNat := by
  simp [isPlain, and_assoc]

theorem escape_cases (h : isPlain c = false) :
    (∃ e, escape c = ['\\', e] ∧ simpleEscape? e = some c) ∨ (c.toNat < 32 ∧
      escape c = ['\\', 'u', '0', '0', hexDigit (c.toNat / 16), hexDigit (c.toNat % 16)]) := by
  have hcode : ∀ n, c.toNat = n → Char.ofNat n = c := by
    rintro n rfl
    exact Char.ofNat_toNat c
  -- the branches of the escape one by one
  by_cases hquote : c = doubleQuote
  · subst hquote
    exact .inl ⟨_, rfl, rfl⟩
  rw [escape, if_neg hquote]
  by_cases hslash : c = '\\'
  · subst hslash
    exact .inl ⟨_, if_pos rfl, rfl⟩
  rw [if_neg hslash]
  by_cases hb : c.toNat = 0x08
  · exact .inl ⟨_, if_pos hb, congrArg some (hcode _ hb)⟩
  rw [if_neg hb]
  by_cases hf : c.toNat = 0x0C
  · exact .inl ⟨_, if_pos hf, congrArg some (hcode _ hf)⟩
  rw [if_neg hf]
  by_cases hn : c = '\n'
  · exact .inl ⟨_, if_pos hn, hn ▸ rfl⟩
  rw [if_neg hn]
  by_cases hr : c = '\r'
  · exact .inl ⟨_, if_pos hr, hr ▸ rfl⟩
  rw [if_neg hr]
  by_cases ht : c = '\t'
  · exact .inl ⟨_, if_pos ht, ht ▸ rfl⟩
  rw [if_neg ht]
  by_cases hcontrol : c.toNat < 0x20
  · exact .inr ⟨hcontrol, if_pos hcontrol⟩
  · have hplain : isPlain c = true :=
      isPlain_iff.mpr ⟨fun hc => hquote (hcode _ hc).symm, hslash, Nat.not_lt.mp hcontrol⟩
    rw [hplain] at h
    cases h

theorem escape_taken (h : isPlain c = false) :
    ∃ text, escape c = '\\' :: text ∧ Takes escapeChar text c := by
  obtain ⟨e, hescape, hletter⟩ | ⟨hcontrol, hescape⟩ := escape_cases h
  · have hu : e ≠ 'u' := by
      rintro rfl
      cases hletter
    exact ⟨_, hescape, escapeChar_simple hletter hu⟩
  · exact ⟨_, hescape, escapeChar_code hcontrol⟩

theorem escape_plain (h : isPlain c = true) : escape c = [c] := by
  obtain ⟨hquote, hslash, hcontrol⟩ := isPlain_iff.mp h
  have hnot : ∀ d : Char, d.toNat < 0x20 → c ≠ d := by
    rintro d hd rfl
    exact absurd hcontrol (Nat.not_le.mpr hd)
  have hdouble : c ≠ doubleQuote := by
    rintro rfl
    exact hquote rfl
  rw [escape, if_neg hdouble, if_neg hslash, if_neg (by omega), if_neg (by omega),
    if_neg (hnot _ (by decide)), if_neg (hnot _ (by decide)), if_neg (hnot _ (by decide)),
    if_neg (Nat.not_lt.mpr hcontrol)]

theorem escapes_plain {p : List Char} (h : ∀ c ∈ p, isPlain c = true) : p.flatMap escape = p := by
  induction p with
  | nil => rfl
  | cons c p ih =>
    obtain ⟨hc, hp⟩ := List.forall_mem_cons.mp h
    rw [List.flatMap_cons, escape_plain hc, ih hp]
    rfl

theorem takeWhile_ok {q : Char → Bool} {p t : List Char} (hp : ∀ c ∈ p, q c = true)
    (ht : ∀ c ∈ t.head?, q c = false) : takeWhile q ⟨p ++ t, offset, depth⟩ =
      .ok p ⟨t, offset + byteLength p, depth⟩ := by
  have hnone : t.takeWhile q = [] := by
    cases t with
    | nil => rfl
    | cons c t => rw [List.takeWhile_cons, ht c rfl, if_neg Bool.false_ne_true]
  have htaken : (p ++ t).takeWhile q = p := by
    rw [List.takeWhile_append_of_pos hp, hnone, List.append_nil]
  rw [takeWhile, bind_ok get_ok]
  simp only [htaken]
  show EStateM.Result.ok p (Input.mk ((p ++ t).drop p.length) (offset + byteLength p) depth) = _
  rw [List.drop_left]

theorem span_plain (t : List Char) : ∃ p u, t = p ++ u ∧ (∀ c ∈ p, isPlain c = true) ∧
    ∀ c ∈ u.head?, isPlain c = false := by
  refine ⟨t.takeWhile isPlain, t.dropWhile isPlain, List.takeWhile_append_dropWhile.symm,
    fun c hc => List.mem_takeWhile_imp hc, fun c hc => ?_⟩
  have := List.head?_dropWhile_not isPlain t
  rw [hc] at this
  simpa using this

theorem stringPieces_taken {t : List Char} (h : t.length < fuel) :
    Takes (stringPieces fuel) (t.flatMap escape ++ [doubleQuote]) t := by
  induction fuel generalizing t with
  | zero => exact absurd h (Nat.not_lt_zero _)
  | succ fuel ih =>
    intro rest offset depth
    -- a stretch of plain characters, then either the closing quote or an escape
    obtain ⟨p, u, rfl, hp, hu⟩ := span_plain t
    rw [List.flatMap_append, escapes_plain hp, stringPieces, List.append_assoc, List.append_assoc]
    cases u with
    | nil =>
      have hquote : ∀ c ∈ (doubleQuote :: rest).head?, isPlain c = false := by
        rintro c ⟨⟩
        rfl
      rw [List.flatMap_nil, List.nil_append, List.singleton_append,
        bind_ok (takeWhile_ok hp hquote), bind_ok peek_head, List.append_nil, byteLength_append,
        ← Nat.add_assoc]
      rfl
    | cons c u =>
      obtain ⟨text, htext, htaken⟩ := escape_taken (hu c rfl)
      have hshape : p ++ ((c :: u).flatMap escape ++ ([doubleQuote] ++ rest)) =
          p ++ '\\' :: (text ++ (u.flatMap escape ++ [doubleQuote] ++ rest)) := by
        rw [List.flatMap_cons, htext]
        simp
      have hslash : ∀ c ∈ ('\\' :: (text ++ (u.flatMap escape ++ [doubleQuote] ++ rest))).head?,
          isPlain c = false := by
        rintro c ⟨⟩
        rfl
      have hlength : u.length < fuel := by
        rw [List.length_append, List.length_cons] at h
        omega
      rw [hshape, bind_ok (takeWhile_ok hp hslash), bind_ok peek_head]
      show (advance >>= fun _ => escapeChar >>= fun c => stringPieces fuel >>= fun more =>
        pure (p ++ c :: more)) _ = _
      rw [bind_ok advance_cons, bind_ok (htaken _ _ _), bind_ok (ih hlength _ _ _),
        List.flatMap_cons, htext]
      simp only [pure, EStateM.pure, byteLength_append, byteLength_cons, List.cons_append,
        List.append_assoc, Nat.add_assoc]

theorem length_le_escaped (t : List Char) : t.length ≤ (t.flatMap escape).length := by
  induction t with
  | nil => exact Nat.le_refl 0
  | cons c t ih =>
    have hc : 0 < (escape c).length := by
      cases h : isPlain c with
      | true => simp [escape_plain h]
      | false =>
        obtain ⟨text, htext, -⟩ := escape_taken h
        simp [htext]
    rw [List.length_cons, List.flatMap_cons, List.length_append]
    omega

theorem string_taken (s : String) : Takes string (quoteChars s.toList) s := by
  intro rest offset depth
  have hfuel : s.toList.length < (s.toList.flatMap escape ++ [doubleQuote] ++ rest).length + 1 := by
    have := length_le_escaped s.toList
    simp only [List.length_append]
    omega
  rw [string, quoteChars, List.cons_append, bind_ok advance_cons, bind_ok get_ok,
    bind_ok (stringPieces_taken hfuel _ _ _), String.ofList_toList, byteLength_cons, Nat.add_assoc]
  rfl

end

end Read

theorem quote_inj {s t : String} {u v : List Char}
    (h : quoteChars s.toList ++ u = quoteChars t.toList ++ v) : s = t ∧ u = v :=
  (Read.string_taken s).eq (Read.string_taken t) h

theorem simpleEscape?_visible {c e : Char} (h : Read.simpleEscape? e = some c) :
    0x20 ≤ e.toNat := by
  unfold Read.simpleEscape? at h
  split at h
  case h_8 =>
    split at h
    · omega
    · cases h
  all_goals decide

theorem escape_visible {c : Char} : ∀ d ∈ escape c, 0x20 ≤ d.toNat := by
  have hdigit : ∀ n < 16, 0x20 ≤ (hexDigit n).toNat := by decide
  cases hplain : Read.isPlain c with
  | true =>
    rw [Read.escape_plain hplain, List.forall_mem_singleton]
    exact (Read.isPlain_iff.mp hplain).2.2
  | false =>
    obtain ⟨e, hescape, hletter⟩ | ⟨hcontrol, hescape⟩ := Read.escape_cases hplain
    · rw [hescape, List.forall_mem_cons, List.forall_mem_singleton]
      exact ⟨by decide, simpleEscape?_visible hletter⟩
    · simp only [hescape, List.forall_mem_cons]
      exact ⟨by decide, by decide, by decide, by decide, hdigit _ (by omega),
        hdigit _ (Nat.mod_lt _ (by decide)), nofun⟩

theorem quote_visible {s : String} : ∀ d ∈ quoteChars s.toList, 0x20 ≤ d.toNat := by
  intro d hd
  rw [quoteChars, List.mem_cons, List.mem_append, List.mem_singleton, List.mem_flatMap] at hd
  rcases hd with rfl | ⟨c, -, hd⟩ | rfl
  · decide
  · exact escape_visible d hd
  · decide

end ModuleHost.Json
