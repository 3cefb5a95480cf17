import ModuleHost.Proofs.Json.Values
import ModuleHost.Proofs.Syntax.Strings
import ModuleHost.Wrap.Wrapper

/-! Strings in generated code. Whatever a string holds, its literal is one token with the string as
its value, so that it never ends early and what follows it is read as it was written. -/

namespace ModuleHost.Wrap

open ModuleHost.Json ModuleHost.Syntax ModuleHost.Text

/-- A text is one string literal: outside of tags and of literal text it is the next token, with
this value, whatever stands behind it. -/
def IsLiteral (text value : String) : Prop :=
  ∀ (flags : Flags) (s : Scanner) (rest : List Char), s.Plain → s.rest = text.toList ++ rest →
    Scan.tokenHere flags s = .ok (some (.string value text))
      { s with rest := rest, pos := s.pos + byteLength text.toList }

/-- A text has a literal between two given texts. -/
def Encloses (text front value back : String) : Prop :=
  ∃ literal, text = front ++ literal ++ back ∧ IsLiteral literal value

/-- The characters outside of escapes. A backslash takes the next character with it. -/
def unescaped : List Char → List Char
  | '\\' :: _ :: rest => unescaped rest
  | c :: rest => c :: unescaped rest
  | [] => []

variable {c : Char} {t rest : List Char}

theorem isLiteral_quote (s : String) : IsLiteral (quote s) s := by
  intro flags scanner rest hplain hrest
  rw [quote_toList] at hrest ⊢
  exact Scan.tokenHere_string s hplain hrest

theorem encloses_quote (front value back : String) :
    Encloses (front ++ quote value ++ back) front value back :=
  ⟨quote value, rfl, isLiteral_quote value⟩

theorem unescaped_cons (h : c ≠ '\\') : unescaped (c :: rest) = c :: unescaped rest :=
  unescaped.eq_2 c rest fun _ _ hc _ => h hc

theorem unescaped_append (h : ∀ d ∈ t, d ≠ '\\') :
    unescaped (t ++ rest) = t ++ unescaped rest := by
  induction t with
  | nil => rfl
  | cons d t ih =>
    obtain ⟨hd, ht⟩ := List.forall_mem_cons.mp h
    rw [List.cons_append, unescaped_cons hd, ih ht]
    rfl

theorem hexDigit_plain : ∀ n < 16, Read.isPlain (hexDigit n) = true := by decide

theorem unescaped_escape (c : Char) (t : List Char) :
    ∃ shown, unescaped (escape c ++ t) = shown ++ unescaped t ∧
      ∀ d ∈ shown, Read.isPlain d = true := by
  cases hplain : Read.isPlain c with
  | true =>
    obtain ⟨-, hslash, -⟩ := Read.isPlain_iff.mp hplain
    refine ⟨[c], ?_, by simpa using hplain⟩
    rw [Read.escape_plain hplain]
    exact unescaped_cons hslash
  | false =>
    obtain ⟨e, hescape, -⟩ | ⟨hcontrol, hescape⟩ := Read.escape_cases hplain
    · refine ⟨[], ?_, by simp⟩
      rw [hescape]
      rfl
    · have hhigh := hexDigit_plain (c.toNat / 16) (by omega)
      have hlow := hexDigit_plain (c.toNat % 16) (Nat.mod_lt _ (by decide))
      have hzero : Read.isPlain '0' = true := by decide
      have hshown : ∀ d ∈ ['0', '0', hexDigit (c.toNat / 16), hexDigit (c.toNat % 16)],
          Read.isPlain d = true := by simp [hzero, hhigh, hlow]
      refine ⟨_, ?_, hshown⟩
      rw [hescape]
      -- the `u` goes with the backslash, and the digits are left
      exact unescaped_append fun d hd => (Read.isPlain_iff.mp (hshown d hd)).2.1

theorem unescaped_escapes (t : List Char) :
    ∀ d ∈ unescaped (t.flatMap escape), Read.isPlain d = true := by
  induction t with
  | nil => simp [unescaped]
  | cons c t ih =>
    obtain ⟨shown, hshown, hplain⟩ := unescaped_escape c (t.flatMap escape)
    rw [List.flatMap_cons, hshown]
    exact List.forall_mem_append.mpr ⟨hplain, ih⟩

theorem parse_quote (s : String) : Json.parse (quote s) = .ok (.string s) :=
  whole_taken (Read.string_value_taken s)

theorem member_encloses {name : String} (object : String) (h : isBareName name = false) :
    Encloses (member object name) (object ++ "[") name "]" := by
  rw [member, h, if_neg Bool.false_ne_true]
  exact encloses_quote _ _ _

theorem patternKey_literal {name : String} (h : isBareName name = false) :
    IsLiteral (patternKey name) name := by
  rw [patternKey, h, if_neg Bool.false_ne_true]
  exact isLiteral_quote name

theorem inBraces_literal (before value path after behind : String) :
    before ++ inBraces (value ++ quote path ++ after) ++ behind =
      before ++ "\x7b " ++ value ++ quote path ++ (after ++ " \x7d" ++ behind) := by
  simp only [inBraces, String.append_assoc]

theorem wrapperHead_literal (config : Config) : ∃ front back, ∀ path,
    wrapperHead config path = front ++ quote path ++ back :=
  ⟨_, _, fun path => inBraces_literal _ "url: " path ", hot: null" ";\n\n"⟩

/-- The path of a module stands in the wrapper as a literal only: in the head, and once more in the
registration if there is one. -/
theorem wrap_literal (config : Config) (r : Converted) : ∃ front middle back, ∀ path,
    r.wrap config path = front ++ quote path ++ middle ++
      if r.hasExports then quote path ++ back else "" := by
  obtain ⟨front, behind, hhead⟩ := wrapperHead_literal config
  let body := behind ++ (importSection config r.imports ++
    (String.ofList (trimEnd r.body.toList) ++ "\n\n"))
  let tail := "  return " ++ (config.moduleIdent ++ ";\n\x7d)();\n")
  cases hexports : r.hasExports with
  | true =>
    refine ⟨front, body ++ (config.registerFn ++ "("),
      ", " ++ (config.exportsIdent ++ (");\n" ++ tail)), fun path => ?_⟩
    simp only [Converted.wrap, hhead, registration, hexports, if_true, String.append_assoc, body,
      tail, -String.reduceAppend]
  | false =>
    refine ⟨front, body ++ tail, "", fun path => ?_⟩
    simp only [Converted.wrap, hhead, registration, hexports, Bool.false_eq_true, if_false,
      String.append_assoc, String.append_empty, body, tail, -String.reduceAppend]

/-- The literal of a string is one token with that string as its value. Quotes, backslashes and
control characters stand in it as escapes only, and as JSON it is the string again. So a specifier,
the path of a module and a name that cannot stand bare have no influence on the code around them. -/
theorem quote_closed :
    (∀ s, IsLiteral (quote s) s ∧
      (∃ inner, (quote s).toList = doubleQuote :: (inner ++ [doubleQuote]) ∧
        ∀ c ∈ unescaped inner, c ≠ doubleQuote ∧ c ≠ '\\' ∧ 0x20 ≤ c.toNat) ∧
      (∀ c ∈ (quote s).toList, 0x20 ≤ c.toNat) ∧
      Json.parse (quote s) = .ok (.string s)) ∧
    (∀ config s, Encloses (resolutionCall config .generic s) (config.resolveFn ++ "(") s ")" ∧
      Encloses (resolutionCall config .hostNative s) (config.hostImportFn ++ "(")
        (config.hostSpecifier s) ")") ∧
    (∀ config (r : Converted), ∃ front middle back, ∀ path, ∃ literal, IsLiteral literal path ∧
      r.wrap config path = front ++ literal ++ middle ++
        if r.hasExports then literal ++ back else "") ∧
    (∀ name, isBareName name = false → IsLiteral (patternKey name) name ∧
      ∀ object, Encloses (member object name) (object ++ "[") name "]") := by
  refine ⟨fun s => ⟨isLiteral_quote s, ⟨s.toList.flatMap escape, quote_toList s, fun c hc => ?_⟩,
    ?_, parse_quote s⟩, fun config s => ⟨?_, ?_⟩, fun config r => ?_, fun name hname => ⟨?_, ?_⟩⟩
  · obtain ⟨hquote, hslash, hcontrol⟩ := Read.isPlain_iff.mp (unescaped_escapes s.toList c hc)
    exact ⟨fun heq => hquote (heq ▸ rfl), hslash, hcontrol⟩
  · rw [quote_toList]
    exact quote_visible
  · exact encloses_quote _ _ _
  · exact encloses_quote _ _ _
  · obtain ⟨front, middle, back, hwrap⟩ := wrap_literal config r
    exact ⟨front, middle, back, fun path => ⟨quote path, isLiteral_quote path, hwrap path⟩⟩
  · exact patternKey_literal hname
  · exact fun object => member_encloses object hname

end ModuleHost.Wrap
