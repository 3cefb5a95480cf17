import ModuleHost.Proofs.Text.Ranges
import ModuleHost.Proofs.Wrap.Quoting
import ModuleHost.Proofs.Wrap.Statements

/-! Names in generated code. A name that is written as it is need not be one of the language, since
Unicode has more letters and numbers than identifiers may hold; the characters that make the
difference are told exactly. -/

namespace ModuleHost.Wrap

open ModuleHost.Text

-- the tables have some hundred ranges
set_option maxRecDepth 2000

def enclosedLetterRanges : List (Nat × Nat) := [
  (0x24B6, 0x24E9), (0x2E2F, 0x2E2F), (0x1F130, 0x1F149), (0x1F150, 0x1F169), (0x1F170, 0x1F189)]

def strayNumberRanges : List (Nat × Nat) := [
  (0xB2, 0xB3), (0xB9, 0xB9), (0xBC, 0xBE), (0x9F4, 0x9F9), (0xB72, 0xB77), (0xBF0, 0xBF2),
  (0xC78, 0xC7E), (0xD58, 0xD5E), (0xD70, 0xD78), (0xF2A, 0xF33), (0x1372, 0x137C),
  (0x17F0, 0x17F9), (0x2070, 0x2070), (0x2074, 0x2079), (0x2080, 0x2089), (0x2150, 0x215F),
  (0x2189, 0x2189), (0x2460, 0x249B), (0x24EA, 0x24FF), (0x2776, 0x2793), (0x2CFD, 0x2CFD),
  (0x3192, 0x3195), (0x3220, 0x3229), (0x3248, 0x324F), (0x3251, 0x325F), (0x3280, 0x3289),
  (0x32B1, 0x32BF), (0xA830, 0xA835), (0x10107, 0x10133), (0x10175, 0x10178), (0x1018A, 0x1018B),
  (0x102E1, 0x102FB), (0x10320, 0x10323), (0x10858, 0x1085F), (0x10879, 0x1087F),
  (0x108A7, 0x108AF), (0x108FB, 0x108FF), (0x10916, 0x1091B), (0x109BC, 0x109BD),
  (0x109C0, 0x109CF), (0x109D2, 0x109FF), (0x10A40, 0x10A48), (0x10A7D, 0x10A7E),
  (0x10A9D, 0x10A9F), (0x10AEB, 0x10AEF), (0x10B58, 0x10B5F), (0x10B78, 0x10B7F),
  (0x10BA9, 0x10BAF), (0x10CFA, 0x10CFF), (0x10E60, 0x10E7E), (0x10F1D, 0x10F26),
  (0x10F51, 0x10F54), (0x10FC5, 0x10FCB), (0x11052, 0x11065), (0x111E1, 0x111F4),
  (0x1173A, 0x1173B), (0x118EA, 0x118F2), (0x11C5A, 0x11C6C), (0x11FC0, 0x11FD4),
  (0x16B5B, 0x16B61), (0x16E80, 0x16E96), (0x1D2C0, 0x1D2D3), (0x1D2E0, 0x1D2F3),
  (0x1D360, 0x1D378), (0x1E8C7, 0x1E8CF), (0x1EC71, 0x1ECAB), (0x1ECAD, 0x1ECAF),
  (0x1ECB1, 0x1ECB4), (0x1ED01, 0x1ED2D), (0x1ED2F, 0x1ED3D), (0x1F100, 0x1F10C)]

def isStray (c : Char) : Bool := inRanges enclosedLetterRanges c || inRanges strayNumberRanges c

def joinerRanges : List (Nat × Nat) := [(0x200C, 0x200D)]

variable {c : Char} {name : String}

def tables : List (List (Nat × Nat)) := [
  identifierStartRanges, identifierPartRanges, otherAlphabeticRanges, numberRanges,
  enclosedLetterRanges, strayNumberRanges, joinerRanges]

section Comparisons

variable {table cuts more : List (Nat × Nat)}

theorem tables_ascending : ∀ table ∈ tables, ascending 0x80 table = true := by decide +kernel

theorem differences :
    minus otherAlphabeticRanges identifierStartRanges = otherAlphabeticRanges ∧
    minus numberRanges identifierStartRanges = numberRanges ∧
    minus otherAlphabeticRanges identifierPartRanges = enclosedLetterRanges ∧
    minus numberRanges identifierPartRanges = strayNumberRanges ∧
    minus enclosedLetterRanges joinerRanges = enclosedLetterRanges ∧
    minus strayNumberRanges joinerRanges = strayNumberRanges := by
  decide +kernel

theorem inRanges_difference (h : minus table cuts = more) (htable : table ∈ tables)
    (hcuts : cuts ∈ tables) :
    inRanges more c = true ↔ inRanges table c = true ∧ inRanges cuts c = false :=
  inRanges_of_minus h (tables_ascending table htable) (tables_ascending cuts hcuts)

theorem inRanges_beyond (h : table ∈ tables) (hc : inRanges table c = true) : 0x80 ≤ c.toNat :=
  ascending_le (tables_ascending table h) (inRanges_iff.mp hc)

end Comparisons

theorem otherAlphabetic_start (h : inRanges otherAlphabeticRanges c = true) :
    inRanges identifierStartRanges c = false := by
  obtain ⟨hminus, -⟩ := differences
  exact ((inRanges_difference hminus (by simp [tables]) (by simp [tables])).mp h).2

theorem number_start (h : inRanges numberRanges c = true) :
    inRanges identifierStartRanges c = false := by
  obtain ⟨-, hminus, -⟩ := differences
  exact ((inRanges_difference hminus (by simp [tables]) (by simp [tables])).mp h).2

theorem enclosedLetter_iff : inRanges enclosedLetterRanges c = true ↔
    inRanges otherAlphabeticRanges c = true ∧ inRanges identifierPartRanges c = false := by
  obtain ⟨-, -, hminus, -⟩ := differences
  exact inRanges_difference hminus (by simp [tables]) (by simp [tables])

theorem strayNumber_iff : inRanges strayNumberRanges c = true ↔
    inRanges numberRanges c = true ∧ inRanges identifierPartRanges c = false := by
  obtain ⟨-, -, -, hminus, -⟩ := differences
  exact inRanges_difference hminus (by simp [tables]) (by simp [tables])

theorem isStray_iff : isStray c = true ↔
    (inRanges otherAlphabeticRanges c = true ∨ inRanges numberRanges c = true) ∧
      inRanges identifierPartRanges c = false := by
  rw [isStray, Bool.or_eq_true, enclosedLetter_iff, strayNumber_iff, or_and_right]

theorem stray_joiner (h : isStray c = true) : c.toNat ≠ 0x200C ∧ c.toNat ≠ 0x200D := by
  obtain ⟨-, -, -, -, hletter, hnumber⟩ := differences
  have hnot : inRanges joinerRanges c = false := by
    rcases (Bool.or_eq_true _ _).mp h with hin | hin
    · exact ((inRanges_difference hletter (by simp [tables]) (by simp [tables])).mp hin).2
    · exact ((inRanges_difference hnumber (by simp [tables]) (by simp [tables])).mp hin).2
  rw [← Bool.not_eq_true, inRanges_iff, joinerRanges, within_cons] at hnot
  omega

theorem nameStart_ascii (h : c.toNat < 0x80) : isNameStart c = isIdentifierStart c := by
  rw [isNameStart, isIdentifierStart, isAlphabetic, if_pos h, if_pos h]
  grind

theorem namePart_ascii (h : c.toNat < 0x80) : isNamePart c = isIdentifierPart c := by
  rw [isNamePart, isIdentifierPart, isAlphanumeric, isAlphabetic, isNumeric, if_pos h, if_pos h,
    if_pos h, Char.isAlphanum]
  grind

theorem not_mark_of_beyond (h : ¬c.toNat < 0x80) : c ≠ '$' ∧ c ≠ '_' :=
  ⟨fun hc => h (hc ▸ by decide), fun hc => h (hc ▸ by decide)⟩

theorem start_stray_iff : isNameStart c = true ∧ isIdentifierStart c = false ↔
    inRanges otherAlphabeticRanges c = true := by
  by_cases h : c.toNat < 0x80
  · rw [nameStart_ascii h]
    have hnot : ¬inRanges otherAlphabeticRanges c = true := fun hc =>
      absurd (inRanges_beyond (by simp [tables]) hc) (by omega)
    grind
  · obtain ⟨hdollar, hunderscore⟩ := not_mark_of_beyond h
    have hstart : inRanges otherAlphabeticRanges c = true → _ := otherAlphabetic_start
    rw [isNameStart, isIdentifierStart, isAlphabetic, if_neg h, if_neg h]
    grind

theorem part_stray_iff : isNamePart c = true ∧ isIdentifierPart c = false ↔ isStray c = true := by
  by_cases h : c.toNat < 0x80
  · rw [namePart_ascii h]
    have hnot : ¬isStray c = true := by
      intro hc
      rcases (Bool.or_eq_true _ _).mp hc with hin | hin
      · exact absurd (inRanges_beyond (by simp [tables]) hin) (by omega)
      · exact absurd (inRanges_beyond (by simp [tables]) hin) (by omega)
    grind
  · obtain ⟨hdollar, hunderscore⟩ := not_mark_of_beyond h
    have hletter : inRanges otherAlphabeticRanges c = true → _ := otherAlphabetic_start
    have hnumber : inRanges numberRanges c = true → _ := number_start
    have hjoiner : isStray c = true → _ := stray_joiner
    rw [isStray_iff] at hjoiner ⊢
    rw [isNamePart, isIdentifierPart, isAlphanumeric, isAlphabetic, isNumeric, if_neg h, if_neg h,
      if_neg h]
    grind

/-- The characters that keep a name from being one of the language although it is written bare. -/
def strays (name : String) : List Char :=
  match name.toList with
  | [] => []
  | c :: rest => (if inRanges otherAlphabeticRanges c then [c] else []) ++ rest.filter isStray

theorem bare_ofList {rest : List Char} :
    isBareName (String.ofList (c :: rest)) = true ↔
      isNameStart c = true ∧ ∀ d ∈ rest, isNamePart d = true := by
  simp [isBareName]

theorem identifier_ofList {rest : List Char} :
    isIdentifierName (String.ofList (c :: rest)) = true ↔
      isIdentifierStart c = true ∧ ∀ d ∈ rest, isIdentifierPart d = true := by
  simp [isIdentifierName]

theorem strays_ofList {rest : List Char} :
    strays (String.ofList (c :: rest)) = [] ↔
      inRanges otherAlphabeticRanges c = false ∧ ∀ d ∈ rest, isStray d = false := by
  simp [strays]

theorem exists_of_bare (h : isBareName name = true) :
    ∃ c rest, name = String.ofList (c :: rest) := by
  cases hname : name.toList with
  | nil => simp [isBareName, hname] at h
  | cons c rest => exact ⟨c, rest, by rw [← hname, String.ofList_toList]⟩

theorem identifierStart_iff (h : isNameStart c = true) :
    isIdentifierStart c = true ↔ inRanges otherAlphabeticRanges c = false := by
  rw [← Bool.not_eq_true, ← start_stray_iff, h]
  simp

theorem identifierPart_iff (h : isNamePart c = true) :
    isIdentifierPart c = true ↔ isStray c = false := by
  rw [← Bool.not_eq_true, ← part_stray_iff, h]
  simp

theorem identifier_of_bare (h : isBareName name = true) :
    isIdentifierName name = true ↔ strays name = [] := by
  obtain ⟨c, rest, rfl⟩ := exists_of_bare h
  obtain ⟨hstart, hpart⟩ := bare_ofList.mp h
  rw [identifier_ofList, strays_ofList, identifierStart_iff hstart]
  exact and_congr_right fun _ => forall₂_congr fun d hd => identifierPart_iff (hpart d hd)

theorem bare_push (h : isBareName name = true) :
    isBareName (name.push c) = true ↔ isNamePart c = true := by
  obtain ⟨d, rest, rfl⟩ := exists_of_bare h
  simp_all [isBareName]

theorem identifier_push (h : isIdentifierName name = true) :
    isIdentifierName (name.push c) = true ↔ isIdentifierPart c = true := by
  cases hname : name.toList with
  | nil => simp [isIdentifierName, hname] at h
  | cons d rest => simp_all [isIdentifierName]

/-- An accepted name is written as it is, behind a dot and as a key, and is one of the language exactly
if none of its characters strays. Every other name is written as a literal. A character that may not
come first stands by itself in an accepted name that is none of the language, and one that strays
makes such a name of any name that was both. -/
theorem bare_identifier_iff (name : String) :
    (isBareName name = true →
      (∀ object, member object name = object ++ "." ++ name) ∧ patternKey name = name ∧
        (isIdentifierName name = true ↔ strays name = [])) ∧
    (isBareName name = false →
      (∀ object, Encloses (member object name) (object ++ "[") name "]") ∧
        IsLiteral (patternKey name) name) ∧
    (∀ c, inRanges otherAlphabeticRanges c = true ↔
      isBareName (String.singleton c) = true ∧ isIdentifierName (String.singleton c) = false) ∧
    (isBareName name = true → isIdentifierName name = true → ∀ c, isStray c = true ↔
      isBareName (name.push c) = true ∧ isIdentifierName (name.push c) = false) := by
  refine ⟨fun h => ⟨fun object => ?_, ?_, identifier_of_bare h⟩,
    fun h => ⟨fun object => member_encloses object h, patternKey_literal h⟩, fun c => ?_,
    fun hbare hidentifier c => ?_⟩
  · rw [member, if_pos h]
  · rw [patternKey, if_pos h]
  · rw [← start_stray_iff]
    simp [isBareName, isIdentifierName]
  · rw [← part_stray_iff, bare_push hbare, ← Bool.not_eq_true (isIdentifierName _),
      identifier_push hidentifier, Bool.not_eq_true]

theorem bare_identifier_iff_half :
    (isBareName "v½" = true ∧ strays "v½" = ['½'] ∧ member "exports" "v½" = "exports.v½" ∧
      isIdentifierName "v½" = false) ∧
    (isBareName "a-b" = false ∧ IsLiteral (patternKey "a-b") "a-b") ∧
    (isBareName "v" = true ∧ isIdentifierName "v" = true ∧ isStray '½' = true) := by
  have hhalf : isBareName "v½" = true := by decide
  have hdash : isBareName "a-b" = false := by decide
  have hv : isBareName "v" = true := by decide
  have hidentifier : isIdentifierName "v" = true := by decide
  have hstrays : strays "v½" = ['½'] := by decide
  obtain ⟨hmember, -, hlegal⟩ := (bare_identifier_iff "v½").1 hhalf
  have hnot : isIdentifierName "v½" = false := by
    rw [← Bool.not_eq_true, hlegal, hstrays]
    simp
  have hstray : isStray '½' = true :=
    ((bare_identifier_iff "v").2.2.2 hv hidentifier '½').mpr ⟨hhalf, hnot⟩
  exact ⟨⟨hhalf, hstrays, hmember "exports", hnot⟩,
    ⟨hdash, ((bare_identifier_iff "a-b").2.1 hdash).2⟩, hv, hidentifier, hstray⟩

/-- A superscript is taken for a part of a name and is none. -/
theorem superscript_member : isBareName "b²" = true ∧ member "exports" "b²" = "exports.b²" ∧
    patternKey "b²" = "b²" ∧ isIdentifierName "b²" = false := by
  decide

end ModuleHost.Wrap
