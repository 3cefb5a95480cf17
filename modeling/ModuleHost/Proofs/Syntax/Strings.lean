import ModuleHost.Proofs.Json.Literals
import ModuleHost.Syntax.Scanner

/-! String literals in program text. The written form of a string is one token, with the string as
its value, whatever follows. -/

namespace ModuleHost.Syntax

open ModuleHost.Text

def Scanner.Plain (s : Scanner) : Prop :=
  s.contexts.head? ≠ some .template ∧ s.contexts.head? ≠ some .element ∧
    s.contexts.head? ≠ some .openTag

namespace Scan

variable {α β : Type} {action : Scan α} {f : α → Scan β} {a : α} {b : β} {s s' : Scanner}
  {c e : Char} {text more ds rest : List Char} {radix start fuel : Nat} {before : Option Char}
  {flags : Flags}

/-- An action takes a text off and answers with a value, whatever follows, and changes nothing
else. -/
def Takes (action : Scan α) (text : List Char) (a : α) : Prop :=
  ∀ s rest, s.rest = text ++ rest →
    action s = .ok a { s with rest := rest, pos := s.pos + byteLength text }

theorem bind_ok (h : action s = .ok a s') : (action >>= f) s = f a s' := by
  simp only [bind, EStateM.bind, h]

theorem get_ok : (get : Scan Scanner) s = .ok s s := rfl

theorem pos_ok : pos s = .ok s.pos s := rfl

theorem rest_ok : Scan.rest s = .ok s.rest s := rfl

theorem current_ok : current s = .ok s.rest.head? s := rfl

theorem tryCatch_ok {handle : Fault → Scan α} (h : action s = .ok a s') :
    (tryCatch action handle) s = .ok a s' := by
  simp only [tryCatch, tryCatchThe, MonadExceptOf.tryCatch, EStateM.tryCatch, h]

theorem Takes.pure : Takes (pure a : Scan α) [] a := by
  rintro s rest rfl
  rfl

theorem Takes.bind (ha : Takes action text a) (hb : Takes (f a) more b) :
    Takes (action >>= f) (text ++ more) b := by
  intro s rest h
  rw [List.append_assoc] at h
  rw [bind_ok (ha s _ h), hb _ rest rfl, byteLength_append, Nat.add_assoc]

theorem Takes.map {g : α → β} (ha : Takes action text a) :
    Takes (action >>= fun a => Pure.pure (g a)) text (g a) := by
  intro s rest h
  rw [bind_ok (ha s rest h)]
  rfl

theorem takes_of_written (h : ∀ (s : Scanner) rest, action { s with rest := text ++ rest } =
    .ok a { s with rest := rest, pos := s.pos + byteLength text }) : Takes action text a := by
  intro s rest hs
  have hrun := h s rest
  rw [← hs] at hrun
  exact hrun

theorem advance_taken : Takes advance [c] () := takes_of_written fun _ _ => rfl

theorem eat_other (h : s.rest.head? ≠ some c) : eat c s = .ok false s := by
  rw [eat, bind_ok current_ok, if_neg (by simpa using h)]
  rfl

theorem digit_ne (h : (digit? radix c).isSome = true) : c ≠ '_' ∧ c ≠ '{' := by
  constructor
  · rintro rfl
    cases h
  · rintro rfl
    cases h

theorem digitsFrom_taken (h : ∀ d ∈ ds, (digit? radix d).isSome = true)
    (hfuel : ds.length < fuel) :
    Takes (digitsFrom flags radix start ds.length fuel before) ds ds := by
  induction ds generalizing fuel before with
  | nil =>
    intro s rest hrest
    obtain rfl : rest = s.rest := hrest.symm
    cases fuel with
    | zero => cases hfuel
    | succ fuel =>
      rw [digitsFrom, bind_ok current_ok]
      cases s.rest.head? with
      | none => rfl
      | some c => rfl
  | cons d ds ih =>
    obtain ⟨hd, hds⟩ := List.forall_mem_cons.mp h
    cases fuel with
    | zero => cases hfuel
    | succ fuel =>
      have hmark : (d == '_') = false := by simpa using (digit_ne hd).1
      have htaken : Takes (advance >>= fun _ => digitsFrom flags radix start ds.length fuel (some d)
          >>= fun more => Pure.pure (d :: more)) (d :: ds) (d :: ds) :=
        advance_taken.bind (ih hds (Nat.lt_of_succ_lt_succ hfuel)).map
      intro s rest hrest
      rw [digitsFrom, bind_ok current_ok, hrest]
      simp only [List.cons_append, List.head?_cons, hmark, hd]
      exact htaken s rest hrest

theorem digits_taken (h : ∀ d ∈ ds, (digit? radix d).isSome = true) :
    Takes (digits flags radix ds.length) ds ds := by
  intro s rest hrest
  have hmin : min ds.length s.rest.length = ds.length := by
    rw [hrest, List.length_append]
    omega
  have hfuel : ds.length < s.rest.length + 1 := by
    rw [hrest, List.length_append]
    omega
  rw [digits, bind_ok rest_ok, bind_ok pos_ok, hmin]
  exact digitsFrom_taken h hfuel s rest hrest

theorem escapedChar_toNat (c : Char) (written : List Char) : escapedChar c.toNat written = [c] := by
  have hvalid : c.toNat.isValidChar := c.valid
  have hchar : Char.ofNat c.toNat = Char.ofNatAux c.toNat hvalid := dif_pos hvalid
  rw [escapedChar, dif_pos hvalid, ← hchar, Char.ofNat_toNat]

theorem unicodeEscape_taken (h : ∀ d ∈ ds, (digit? 16 d).isSome = true) (hlength : ds.length = 4)
    (hvalue : digitsValue 16 ds = c.toNat) : Takes (unicodeEscape flags) ('u' :: ds) [c] := by
  intro s rest hrest
  obtain ⟨d, more, rfl⟩ := List.exists_cons_of_length_eq_add_one hlength
  have hcurly : (d :: more ++ rest).head? ≠ some '{' := fun hd =>
    (digit_ne (h d List.mem_cons_self)).2 (Option.some.inj hd)
  have hsmall : ¬ c.toNat > 0x10FFFF := by
    have hvalid : c.toNat.isValidChar := c.valid
    unfold Nat.isValidChar at hvalid
    omega
  have hdigits : Takes (digits flags 16 4) (d :: more) (d :: more) := hlength ▸ digits_taken h
  rw [unicodeEscape, bind_ok rest_ok, bind_ok (advance_taken s (d :: more ++ rest) hrest),
    bind_ok (eat_other hcurly), bind_ok rest_ok]
  simp only [Bool.false_eq_true, if_false]
  rw [bind_ok (hdigits _ rest rfl)]
  simp only [hlength, hvalue, hsmall, if_false]
  show (Scan.rest >>= fun left => Pure.pure (escapedChar c.toNat _)) _ = _
  have hbytes : byteLength ('u' :: d :: more) = byteLength ['u'] + byteLength (d :: more) :=
    rfl
  rw [bind_ok rest_ok, escapedChar_toNat, hbytes, ← Nat.add_assoc]
  rfl

theorem escape_letter (h : Json.Read.simpleEscape? e = some c) :
    Takes (escape flags false) ['\\', e] [c] := by
  refine takes_of_written fun s rest => ?_
  unfold Json.Read.simpleEscape? at h
  split at h
  · cases h
    rfl
  · cases h
    rfl
  · cases h
    rfl
  · cases h
    rfl
  · cases h
    rfl
  · cases h
    rfl
  · cases h
    rfl
  · split at h
    · rename_i hquote
      obtain rfl : e = doubleQuote := by rw [← Char.ofNat_toNat e, hquote]; rfl
      cases h
      rfl
    · cases h

theorem escape_unicode (h : Takes (unicodeEscape flags) ('u' :: ds) [c]) :
    Takes (escape flags false) ('\\' :: 'u' :: ds) [c] := by
  intro s rest hrest
  have hbytes : byteLength ('\\' :: 'u' :: ds) = byteLength ['\\'] + byteLength ('u' :: ds) :=
    rfl
  rw [escape, bind_ok pos_ok, bind_ok (advance_taken s ('u' :: ds ++ rest) hrest),
    bind_ok current_ok]
  show (tryCatch (unicodeEscape flags) _) _ = _
  rw [tryCatch_ok (h _ rest rfl), hbytes, Nat.add_assoc]

theorem digit_hexDigit : ∀ n < 16, (digit? 16 (Json.hexDigit n)).isSome = true := by decide

theorem digitsValue_hexDigit : ∀ n < 32,
    digitsValue 16 ['0', '0', Json.hexDigit (n / 16), Json.hexDigit (n % 16)] = n := by
  decide

theorem escape_taken (h : Json.Read.isPlain c = false) :
    Takes (escape flags false) (Json.escape c) [c] := by
  obtain ⟨e, hescape, hletter⟩ | ⟨hcontrol, hescape⟩ := Json.Read.escape_cases h
  · rw [hescape]
    exact escape_letter hletter
  · have hzero : (digit? 16 '0').isSome = true := rfl
    have hhigh := digit_hexDigit (c.toNat / 16) (by omega)
    have hlow := digit_hexDigit (c.toNat % 16) (Nat.mod_lt _ (by decide))
    have hdigits : ∀ d ∈ ['0', '0', Json.hexDigit (c.toNat / 16), Json.hexDigit (c.toNat % 16)],
        (digit? 16 d).isSome = true := by simp [hzero, hhigh, hlow]
    rw [hescape]
    exact escape_unicode (unicodeEscape_taken hdigits rfl (digitsValue_hexDigit c.toNat hcontrol))

theorem escape_head (h : Json.Read.isPlain c = false) : ∃ more, Json.escape c = '\\' :: more := by
  obtain ⟨e, hescape, -⟩ | ⟨-, hescape⟩ := Json.Read.escape_cases h
  · exact ⟨_, hescape⟩
  · exact ⟨_, hescape⟩

theorem stringBody_end : Takes (stringBody flags doubleQuote (fuel + 1)) [doubleQuote] ([], true) :=
  takes_of_written fun _ _ => rfl

theorem stringBody_next (hhead : s.rest.head? = some c) (hquote : c ≠ doubleQuote)
    (hline : c ≠ '\n' ∧ c ≠ '\r') : stringBody flags doubleQuote (fuel + 1) s =
      ((if c == '\\' then escape flags false else advance >>= fun _ => Pure.pure [c]) >>=
        fun part => stringBody flags doubleQuote fuel >>= fun r => Pure.pure (part ++ r.1, r.2)) s := by
  have hquote' : (c == doubleQuote) = false := by simpa using hquote
  have hline' : (c == '\n' || c == '\r') = false := by simpa using hline
  rw [stringBody, bind_ok current_ok, hhead]
  simp only [hquote', hline', Bool.false_eq_true, if_false]
  by_cases hslash : (c == '\\') = true
  · simp only [hslash, if_true]
  · simp only [hslash]
    rfl

theorem stringBody_cons {t : List Char} (h : Takes (stringBody flags doubleQuote fuel) text (t, true)) :
    Takes (stringBody flags doubleQuote (fuel + 1)) (Json.escape c ++ text) (c :: t, true) := by
  intro s rest hrest
  cases hplain : Json.Read.isPlain c with
  | true =>
    obtain ⟨hquote, hslash, hcontrol⟩ := Json.Read.isPlain_iff.mp hplain
    have hne : ∀ d : Char, d.toNat < 0x20 ∨ d.toNat = 0x22 → c ≠ d := by
      rintro d hd rfl
      omega
    have htaken : Takes ((advance >>= fun _ => Pure.pure [c]) >>= fun part =>
        stringBody flags doubleQuote fuel >>= fun r => Pure.pure (part ++ r.1, r.2))
        ([c] ++ text) (c :: t, true) := advance_taken.map.bind h.map
    rw [Json.Read.escape_plain hplain] at hrest ⊢
    have hother : (c == '\\') = false := by simpa using hslash
    rw [stringBody_next (by rw [hrest]; rfl) (hne _ (.inr rfl))
      ⟨hne _ (.inl (by decide)), hne _ (.inl (by decide))⟩, hother]
    exact htaken s rest hrest
  | false =>
    obtain ⟨more, hmore⟩ := escape_head hplain
    have htaken : Takes (escape flags false >>= fun part =>
        stringBody flags doubleQuote fuel >>= fun r => Pure.pure (part ++ r.1, r.2))
        (Json.escape c ++ text) (c :: t, true) := (escape_taken hplain).bind h.map
    rw [stringBody_next (c := '\\') (by rw [hrest, hmore]; rfl) (by decide) (by decide)]
    exact htaken s rest hrest

theorem stringBody_taken {t : List Char} (h : t.length < fuel) :
    Takes (stringBody flags doubleQuote fuel) (t.flatMap Json.escape ++ [doubleQuote]) (t, true) := by
  induction t generalizing fuel with
  | nil =>
    cases fuel with
    | zero => cases h
    | succ fuel => exact stringBody_end
  | cons c t ih =>
    cases fuel with
    | zero => cases h
    | succ fuel =>
      rw [List.flatMap_cons, List.append_assoc]
      exact stringBody_cons (ih (Nat.lt_of_succ_lt_succ h))

theorem spelling_ok {before : List Char} (h : before = text ++ s.rest) :
    spelling before s = .ok (String.ofList text) s := by
  have htaken : before.take (before.length - s.rest.length) = text := by
    rw [h, List.length_append, Nat.add_sub_cancel, List.take_left]
  rw [spelling, bind_ok rest_ok, htaken]
  rfl

theorem string_taken (t : String) : Takes (string flags doubleQuote)
    (Json.quoteChars t.toList) (.string t (Json.quote t)) := by
  intro s rest hrest
  have hfuel : t.toList.length < s.rest.length + 1 := by
    have := Json.Read.length_le_escaped t.toList
    simp only [hrest, Json.quoteChars, List.length_append, List.length_cons]
    omega
  have hbytes : byteLength (Json.quoteChars t.toList) = byteLength [doubleQuote] +
      byteLength (t.toList.flatMap Json.escape ++ [doubleQuote]) := rfl
  rw [string, bind_ok pos_ok, bind_ok rest_ok,
    bind_ok (advance_taken s (t.toList.flatMap Json.escape ++ [doubleQuote] ++ rest) hrest),
    bind_ok (stringBody_taken hfuel _ rest rfl)]
  show (spelling s.rest >>= fun raw => Pure.pure (Token.string (String.ofList t.toList) raw)) _ = _
  rw [bind_ok (spelling_ok hrest), String.ofList_toList, hbytes, Nat.add_assoc]
  rfl

theorem plainToken_string (t : String) : Takes (plainToken flags (fuel + 1))
    (Json.quoteChars t.toList) (some (.string t (Json.quote t))) := by
  intro s rest hrest
  have htaken : Takes (string flags doubleQuote >>= fun token => Pure.pure (some token))
      (Json.quoteChars t.toList) (some (.string t (Json.quote t))) := (string_taken t).map
  rw [plainToken, bind_ok rest_ok, hrest]
  exact htaken s rest hrest

theorem tagToken?_other (h : s.Plain) (hrest : s.rest = doubleQuote :: rest) :
    tagToken? s = .ok none s := by
  obtain ⟨-, -, htag⟩ := h
  rw [tagToken?, bind_ok get_ok, hrest]
  cases hhead : s.contexts.head? with
  | none => rfl
  | some ctx =>
    have hctx : (ctx == .openTag) = false := by
      rw [hhead] at htag
      simpa using htag
    have hstart : isIdentifierStart doubleQuote = false := by decide
    simp only [hctx, hstart]
    split
    · rfl
    · rfl

/-- The token at hand is the literal with its string, and what follows is left as it is. -/
theorem tokenHere_string (t : String) (hplain : s.Plain)
    (hrest : s.rest = Json.quoteChars t.toList ++ rest) : tokenHere flags s =
      .ok (some (.string t (Json.quote t)))
        { s with rest := rest, pos := s.pos + byteLength (Json.quoteChars t.toList) } := by
  have htoken : plainToken flags (s.rest.length + 1) s = .ok (some (.string t (Json.quote t)))
      { s with rest := rest, pos := s.pos + byteLength (Json.quoteChars t.toList) } :=
    plainToken_string t s rest hrest
  have hhead : s.rest = doubleQuote :: (t.toList.flatMap Json.escape ++ [doubleQuote] ++ rest) :=
    hrest
  have hsome : s.rest.isEmpty = false := by rw [hhead]; rfl
  have helement : (s.contexts.head? == some .element) = false := by simpa using hplain.2.1
  have htemplate : (s.contexts.head? == some .template) = false := by simpa using hplain.1
  have hless : (s.rest.head? == some '<') = false := by rw [hhead]; rfl
  rw [tokenHere, bind_ok get_ok]
  simp only [hsome, helement, htemplate, hless, Bool.and_false, Bool.false_and, Bool.false_eq_true,
    if_false]
  split
  · rw [bind_ok (tagToken?_other hplain hhead)]
    exact htoken
  · exact htoken

end Scan

end ModuleHost.Syntax
