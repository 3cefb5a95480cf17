import ModuleHost.Json.Read

/-!
Reading JSON text by someone who knows what to expect, and skipping what nobody asks for.
-/

namespace ModuleHost.Json.Read

def mismatch {α : Type} (expected : String) : Read α := placed do
  match ← next with
  | some '[' => throw ⟨.invalidType .sequence expected, none⟩
  | some '{' => throw ⟨.invalidType .map expected, none⟩
  | some c =>
    match ← scalar? c with
    | some v => throw ⟨.invalidType v.found expected, none⟩
    | none => failAhead .valueExpected
  | none => fail .endOfValue

def expectString (expected : String) : Read String := do
  if (← next).any isQuoteMark then string else mismatch expected

def expectStrings : Read (List String) := do
  if (← next) = some '[' then
    closedBy endArray (nested do elementsWith (expectString "a string") (← bound) true)
  else mismatch "a sequence"

def skipDigits : Read Bool := do
  return !(← takeWhile Char.isDigit).isEmpty

def skipExponent : Read Unit := do
  if !(← eat '+') then discard <| eat '-'
  match ← peek with
  | none => fail .invalidNumber
  | some c => unless c.isDigit do failBehind 1 .invalidNumber
  discard skipDigits

def skipNumber : Read Unit := do
  match ← peek with
  | none => fail .invalidNumber
  | some c => unless c.isDigit do failBehind 1 .invalidNumber
  if ← eat '0' then
    if (← peek).any Char.isDigit then failAhead .invalidNumber
  else discard skipDigits
  if ← eat '.' then
    unless ← skipDigits do failAhead .invalidNumber
  let exponent ← if ← eat 'e' then pure true else eat 'E'
  if exponent then skipExponent

def skipEscape : Read Unit := do
  match ← peek with
  | none => fail .endOfString
  | some 'u' =>
    advance
    discard hexEscape
  | some c => if (simpleEscape? c).isSome then advance else failBehind 1 .invalidEscape

def skipPieces : Nat → Read Unit
  | 0 => fail .endOfString
  | fuel + 1 => do
    discard <| takeWhile isPlain
    match ← peek with
    | none => fail .endOfString
    | some '\\' =>
      advance
      skipEscape
      skipPieces fuel
    | some c => if isQuoteMark c then advance else fail .controlCharacter

def skipString : Read Unit := do
  advance
  skipPieces (← bound)

def skipScalar (c : Char) : Read Unit := do
  match c with
  | 'n' =>
    advance
    word ['u', 'l', 'l']
  | 't' =>
    advance
    word ['r', 'u', 'e']
  | 'f' =>
    advance
    word ['a', 'l', 's', 'e']
  | '-' =>
    advance
    skipNumber
  | _ =>
    if c.isDigit then skipNumber
    else if isQuoteMark c then skipString
    else failAhead .valueExpected

/-- Where a skipped value is read: at a value, or behind one inside of the innermost construct. -/
inductive SkipPoint where
  | atValue
  | inside (commaAllowed : Bool)

def skipKey : Read Unit := do
  match ← next with
  | some c => if isQuoteMark c then skipString else failAhead .keyNotString
  | none => fail .endOfObject
  colon

def skipToValue (frame : Char) : Read Unit := do
  if frame = '{' then skipKey

/-- Skips a value whose open constructs are given, the innermost first. -/
def skipFrom : Nat → List Char → SkipPoint → Read Unit
  | 0, _, _ => fail .endOfValue
  | fuel + 1, opened, .atValue => do
    match ← next with
    | none => fail .endOfValue
    | some c =>
      if c = '[' || c = '{' then
        advance
        skipFrom fuel (c :: opened) (.inside false)
      else
        skipScalar c
        unless opened.isEmpty do skipFrom fuel opened (.inside true)
  | _ + 1, [], .inside _ => return
  | fuel + 1, frame :: opened, .inside commaAllowed => do
    match ← next with
    | none => fail (if frame = '[' then .endOfList else .endOfObject)
    | some c =>
      if c = ',' && commaAllowed then
        advance
        skipToValue frame
        skipFrom fuel (frame :: opened) .atValue
      else if (c = ']' && frame = '[') || (c = '}' && frame = '{') then
        advance
        skipFrom fuel opened (.inside true)
      else if commaAllowed then
        failAhead (if frame = '[' then .commaOrListEnd else .commaOrObjectEnd)
      else
        skipToValue frame
        skipFrom fuel (frame :: opened) .atValue

def skipValue : Read Unit := do
  skipFrom (2 * (← bound)) [] .atValue

end ModuleHost.Json.Read
