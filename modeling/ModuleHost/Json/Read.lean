import ModuleHost.Json.Fault
import ModuleHost.Text.Position

/-!
Reading JSON text. The pieces are public, since a reader that knows what to expect reads a text piece
by piece and stops at the first thing it cannot use. A fault that has no place gets the one that has
been reached.
-/

namespace ModuleHost.Json

open ModuleHost.Decimal ModuleHost.Text

structure Input where
  rest : List Char
  offset : Nat
  depth : Nat

abbrev Read := EStateM Fault Input

namespace Read

def isSpace (c : Char) : Bool :=
  c = ' ' || c = '\n' || c = '\t' || c = '\r'

def fail {α : Type} (cause : Cause) : Read α := do
  throw ⟨cause, some (← get).offset⟩

def failAhead {α : Type} (cause : Cause) : Read α := do
  let s ← get
  throw ⟨cause, some (if s.rest.isEmpty then s.offset else s.offset + 1)⟩

def failBehind {α : Type} (bytes : Nat) (cause : Cause) : Read α := do
  throw ⟨cause, some ((← get).offset + bytes)⟩

def placed {α : Type} (action : Read α) : Read α := fun s =>
  match action s with
  | .ok a s' => .ok a s'
  | .error f s' => .error { f with offset := f.offset.or (some s'.offset) } s'

def peek : Read (Option Char) :=
  return (← get).rest.head?

def advance : Read Unit := modify fun s =>
  match s.rest with
  | [] => s
  | c :: rest => { s with rest, offset := s.offset + c.utf8Size }

def eat (c : Char) : Read Bool := do
  if (← peek) = some c then
    advance
    return true
  return false

def takeWhile (p : Char → Bool) : Read (List Char) := do
  let taken := (← get).rest.takeWhile p
  modify fun s =>
    { s with rest := s.rest.drop taken.length, offset := s.offset + byteLength taken }
  return taken

def next : Read (Option Char) := do
  discard <| takeWhile isSpace
  peek

def word : List Char → Read Unit
  | [] => return
  | expected :: more => do
    match ← peek with
    | none => fail .endOfValue
    | some c =>
      if c = expected then
        advance
        word more
      else failBehind 1 .identExpected

/-- The number with the given digits and power of ten, computed with one rounding for the digits and
one for the power; magnitudes too small become zero. -/
def real (negative : Bool) (significand : Nat) (exponent : Int) : Option Binary64 := do
  let x ← Binary64.ofNat significand
  let scaled ← scale x exponent.natAbs (0 ≤ exponent) exponent.natAbs
  return if negative then scaled.neg else scaled
where
  scale (x : Binary64) (exponent : Nat) (up : Bool) : Nat → Option Binary64
    | 0 => step x exponent up
    | fuel + 1 =>
      if exponent ≤ 308 then step x exponent up
      else if x.mantissa = 0 then some x
      else if up then none
      else do
        let smaller ← x.div (← Binary64.powerOfTen 308)
        scale smaller (exponent - 308) up fuel
  step (x : Binary64) (exponent : Nat) (up : Bool) : Option Binary64 := do
    let power ← Binary64.powerOfTen exponent
    if up then x.mul power else x.div power

def digitsInto (value : Nat) (limit : Nat) : List Char → Nat × Nat
  | [] => (value, 0)
  | c :: rest =>
    let grown := value * 10 + (c.toNat - '0'.toNat)
    if grown < limit then
      let (v, n) := digitsInto grown limit rest
      (v, n + 1)
    else (value, 0)

def wordLimit : Nat := Nat.pow 2 64

def finish (negative : Bool) (significand : Nat) (exponent : Int) : Read Number := do
  match real negative significand exponent with
  | some x => return .real x
  | none => fail .numberOutOfRange

def exponentLimit : Nat := Nat.pow 2 31

def exponentPart (negative : Bool) (significand : Nat) (start : Int) : Read Number := do
  advance
  let down ←
    if ← eat '+' then pure false else eat '-'
  match ← peek with
  | none => fail .endOfValue
  | some c => unless c.isDigit do failBehind 1 .invalidNumber
  let written := (← get).rest.takeWhile Char.isDigit
  let (exponent, used) := digitsInto 0 exponentLimit written
  -- beyond the limit a number is too large, or zero if it is small or all its digits are
  if used < written.length then
    if significand ≠ 0 && !down then failBehind (used + 1) .numberOutOfRange
    discard <| takeWhile Char.isDigit
    return .real (if negative then Binary64.zero.neg else Binary64.zero)
  discard <| takeWhile Char.isDigit
  finish negative significand (if down then start - exponent else start + exponent)

def afterDigits (negative : Bool) (significand : Nat) (exponent : Int) : Read Number := do
  match ← peek with
  | some 'e' | some 'E' => exponentPart negative significand exponent
  | _ => finish negative significand exponent

def fractionPart (negative : Bool) (significand : Nat) (start : Int) : Read Number := do
  advance
  let written ← takeWhile Char.isDigit
  if written.isEmpty then
    match ← peek with
    | some _ => failAhead .invalidNumber
    | none => fail .endOfValue
  let (grown, used) := digitsInto significand wordLimit written
  afterDigits negative grown (start - used)

def number (negative : Bool) : Read Number := do
  match ← peek with
  | none => fail .endOfValue
  | some c => unless c.isDigit do failBehind 1 .invalidNumber
  let zero ← eat '0'
  if zero then
    if (← peek).any Char.isDigit then failAhead .invalidNumber
  let written ← takeWhile Char.isDigit
  let (value, used) := digitsInto 0 wordLimit written
  -- digits beyond 64 bits are not looked at, only their number counts
  let dropped := written.length - used
  match ← peek with
  | some '.' => fractionPart negative value dropped
  | some 'e' | some 'E' => exponentPart negative value dropped
  | _ =>
    if dropped ≠ 0 then finish negative value dropped
    else if !negative then return .int value
    -- minus zero and what 64 bits do not hold become real
    else if 0 < value && value ≤ Nat.pow 2 63 then return .int (-value)
    else finish true value 0

def hexValue? (c : Char) : Option Nat :=
  if c.isDigit then some (c.toNat - '0'.toNat)
  else if 'a' ≤ c && c ≤ 'f' then some (c.toNat - 'a'.toNat + 10)
  else if 'A' ≤ c && c ≤ 'F' then some (c.toNat - 'A'.toNat + 10)
  else none

def hexEscape : Read Nat := do
  let s ← get
  if byteLength (s.rest.take 4) < 4 then failBehind (byteLength s.rest) .endOfString
  match s.rest with
  | a :: b :: c :: d :: _ =>
    match hexValue? a, hexValue? b, hexValue? c, hexValue? d with
    | some a, some b, some c, some d =>
      discard <| advance *> advance *> advance *> advance
      return ((a * 16 + b) * 16 + c) * 16 + d
    | _, _, _, _ => failBehind 4 .invalidEscape
  | _ => failBehind 4 .invalidEscape

def expectEscape (c : Char) : Read Unit := do
  match ← peek with
  | none => fail .endOfString
  | some d => if d = c then advance else failBehind 1 .endOfEscape

def unicodeEscape : Read Char := do
  let first ← hexEscape
  if 0xDC00 ≤ first && first ≤ 0xDFFF then fail .loneSurrogate
  if first < 0xD800 || 0xDBFF < first then return Char.ofNat first
  expectEscape '\\'
  expectEscape 'u'
  let second ← hexEscape
  if second < 0xDC00 || 0xDFFF < second then fail .loneSurrogate
  return Char.ofNat (0x10000 + (first - 0xD800) * 0x400 + (second - 0xDC00))

def simpleEscape? (c : Char) : Option Char :=
  match c with
  | '\\' | '/' => some c
  | 'b' => some (Char.ofNat 0x08)
  | 'f' => some (Char.ofNat 0x0C)
  | 'n' => some '\n'
  | 'r' => some '\r'
  | 't' => some '\t'
  | _ => if c.toNat = 0x22 then some c else none

def escapeChar : Read Char := do
  match ← peek with
  | none => fail .endOfString
  | some 'u' =>
    advance
    unicodeEscape
  | some c =>
    match simpleEscape? c with
    | some e =>
      advance
      return e
    | none => failBehind 1 .invalidEscape

def isPlain (c : Char) : Bool :=
  c.toNat ≠ 0x22 && c ≠ '\\' && 0x20 ≤ c.toNat

def stringPieces : Nat → Read (List Char)
  | 0 => fail .endOfString
  | fuel + 1 => do
    let plain ← takeWhile isPlain
    match ← peek with
    | none => fail .endOfString
    | some '\\' =>
      advance
      let c ← escapeChar
      return plain ++ c :: (← stringPieces fuel)
    | some c =>
      if c.toNat = 0x22 then
        advance
        return plain
      else failBehind 1 .controlCharacter

def string : Read String := do
  advance
  return String.ofList (← stringPieces ((← get).rest.length + 1))

def isQuoteMark (c : Char) : Bool :=
  c.toNat = 0x22

def scalar? (c : Char) : Read (Option Value) := do
  match c with
  | 'n' =>
    advance
    word ['u', 'l', 'l']
    return some .null
  | 't' =>
    advance
    word ['r', 'u', 'e']
    return some (.bool true)
  | 'f' =>
    advance
    word ['a', 'l', 's', 'e']
    return some (.bool false)
  | '-' =>
    advance
    return some (.number (← number true))
  | '[' | '{' => return none
  | _ =>
    if c.isDigit then return some (.number (← number false))
    else if isQuoteMark c then return some (.string (← string))
    else failAhead .valueExpected

def nested {α : Type} (action : Read α) : Read α := do
  let s ← get
  if s.depth ≤ 1 then failAhead .recursionLimit
  advance
  modify fun t => { t with depth := t.depth - 1 }
  let a ← action
  modify fun t => { t with depth := t.depth + 1 }
  return a

def moreElements (first : Bool) : Read Bool := do
  match ← next with
  | none => fail .endOfList
  | some ']' => return false
  | some ',' =>
    if first then return true
    advance
    match ← next with
    | some ']' => failAhead .trailingComma
    | some _ => return true
    | none => fail .endOfValue
  | some _ => if first then return true else failAhead .commaOrListEnd

def moreEntries (first : Bool) : Read Bool := do
  match ← next with
  | none => fail .endOfObject
  | some '}' => return false
  | some c =>
    if first then
      if isQuoteMark c then return true else failAhead .keyNotString
    else if c = ',' then
      advance
      match ← next with
      | some '}' => failAhead .trailingComma
      | some c => if isQuoteMark c then return true else failAhead .keyNotString
      | none => fail .endOfValue
    else failAhead .commaOrObjectEnd

def colon : Read Unit := do
  match ← next with
  | some ':' => advance
  | some _ => failAhead .colonExpected
  | none => fail .endOfObject

def endArray : Read Unit := do
  match ← next with
  | some ']' => advance
  | some ',' =>
    advance
    if (← next) = some ']' then failAhead .trailingComma else failAhead .trailingCharacters
  | some _ => failAhead .trailingCharacters
  | none => fail .endOfList

def endObject : Read Unit := do
  match ← next with
  | some '}' => advance
  | some ',' => failAhead .trailingComma
  | some _ => failAhead .trailingCharacters
  | none => fail .endOfObject

/-- Reads inside of an array or object and then its end. The end is read also behind a fault, which
it may thereby place further on. -/
def closedBy {α : Type} (close : Read Unit) (action : Read α) : Read α :=
  placed fun s =>
    match action s with
    | .ok a s' => (close *> pure a) s'
    | .error f s' =>
      match close s' with
      | .ok _ s'' => .error f s''
      | .error _ s'' => .error f s''

def elementsWith {α : Type} (element : Read α) : Nat → Bool → Read (List α)
  | 0, _ => fail .endOfList
  | fuel + 1, first => do
    if !(← moreElements first) then return []
    let a ← element
    return a :: (← elementsWith element fuel false)

def entriesWith {α : Type} (entry : String → Read α) : Nat → Bool → Read (List α)
  | 0, _ => fail .endOfObject
  | fuel + 1, first => do
    if !(← moreEntries first) then return []
    let a ← entry (← string)
    return a :: (← entriesWith entry fuel false)

def bound : Read Nat :=
  return (← get).rest.length + 1

/-- Any value. The number bounds how deep it may nest. -/
def value : Nat → Read Value
  | 0 => failAhead .recursionLimit
  | fuel + 1 => do
    match ← next with
    | none => fail .endOfValue
    | some c =>
      match ← scalar? c with
      | some v => return v
      | none =>
        if c = '[' then
          return .array (← closedBy endArray (nested do elementsWith (value fuel) (← bound) true))
        else
          let entry (key : String) : Read (String × Value) := do
            colon
            return (key, ← value fuel)
          return .object (← closedBy endObject (nested do entriesWith entry (← bound) true))

def endOfText : Read Unit := do
  if (← next).isSome then failAhead .trailingCharacters

def depthLimit : Nat := 128

def whole {α : Type} (text : String) (action : Read α) : Except Fault α :=
  match (action <* endOfText) { rest := text.toList, offset := 0, depth := depthLimit } with
  | .ok a _ => .ok a
  | .error f _ => .error f

end Read

def parse (text : String) : Except Fault Value :=
  Read.whole text (Read.value Read.depthLimit)

end ModuleHost.Json
