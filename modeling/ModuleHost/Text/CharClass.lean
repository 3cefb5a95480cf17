import ModuleHost.Text.CharTable

/-!
Classes of characters: white space, identifier characters, letters and numbers.
ASCII is decided here; everything else is looked up in the range tables.
-/

namespace ModuleHost.Text

def inRanges (table : List (Nat × Nat)) (c : Char) : Bool :=
  table.any fun (lo, hi) => lo ≤ c.toNat && c.toNat ≤ hi

/-- White space in the sense of the Unicode property of that name. -/
def isBlank (c : Char) : Bool :=
  let n := c.toNat
  n == 0x20 || (0x9 ≤ n && n ≤ 0xD) || n == 0x85 || n == 0xA0 || n == 0x1680 ||
    (0x2000 ≤ n && n ≤ 0x200A) || n == 0x2028 || n == 0x2029 || n == 0x202F ||
    n == 0x205F || n == 0x3000

def isAsciiBlank (c : Char) : Bool :=
  c == ' ' || (0x9 ≤ c.toNat && c.toNat ≤ 0xD)

def isLineEnd (c : Char) : Bool :=
  c == '\n' || c == '\r' || c.toNat == 0x2028 || c.toNat == 0x2029

def isIdentifierStart (c : Char) : Bool :=
  if c.toNat < 0x80 then c.isAlpha || c == '$' || c == '_'
  else inRanges identifierStartRanges c

def isIdentifierPart (c : Char) : Bool :=
  if c.toNat < 0x80 then c.isAlphanum || c == '$' || c == '_'
  else inRanges identifierStartRanges c || inRanges identifierPartRanges c ||
    c.toNat == 0x200C || c.toNat == 0x200D

/-- Symbols that may begin an identifier although they are not alphabetic. -/
def isLetterlikeSymbol (c : Char) : Bool :=
  c.toNat == 0x2118 || c.toNat == 0x212E || c.toNat == 0x309B || c.toNat == 0x309C

def isAlphabetic (c : Char) : Bool :=
  if c.toNat < 0x80 then c.isAlpha
  else (inRanges identifierStartRanges c && !isLetterlikeSymbol c) ||
    inRanges otherAlphabeticRanges c

def isNumeric (c : Char) : Bool :=
  if c.toNat < 0x80 then c.isDigit else inRanges numberRanges c

def isAlphanumeric (c : Char) : Bool :=
  isAlphabetic c || isNumeric c

end ModuleHost.Text
