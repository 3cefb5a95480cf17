/-!
Reading bytes as UTF-8 text. `decodeLossy` puts one replacement character in the place of each
longest run of bytes that could have begun a character.
-/

namespace ModuleHost.Text.Utf8

def isContinuation (b : UInt8) : Bool :=
  0x80 ≤ b && b ≤ 0xBF

/-- How many bytes a character takes that begins with this one, and which second bytes may follow. -/
def lead? (b : UInt8) : Option (Nat × UInt8 × UInt8) :=
  if b < 0x80 then some (1, 0x80, 0xBF)
  else if 0xC2 ≤ b && b ≤ 0xDF then some (2, 0x80, 0xBF)
  else if b = 0xE0 then some (3, 0xA0, 0xBF)
  else if b = 0xED then some (3, 0x80, 0x9F)
  else if 0xE1 ≤ b && b ≤ 0xEF then some (3, 0x80, 0xBF)
  else if b = 0xF0 then some (4, 0x90, 0xBF)
  else if b = 0xF4 then some (4, 0x80, 0x8F)
  else if 0xF1 ≤ b && b ≤ 0xF3 then some (4, 0x80, 0xBF)
  else none

def sequence (size : Nat) (low high : UInt8) : List UInt8 → List UInt8
  | [] => []
  | b :: rest =>
    match size with
    | 0 | 1 => []
    | size + 2 =>
      if low ≤ b && b ≤ high then b :: (rest.take size).takeWhile isContinuation else []

def codePoint (size : Nat) (first : UInt8) (more : List UInt8) : Nat :=
  let bits := match size with
    | 1 => first.toNat
    | 2 => first.toNat % 0x20
    | 3 => first.toNat % 0x10
    | _ => first.toNat % 0x08
  more.foldl (fun n b => n * 0x40 + b.toNat % 0x40) bits

def replacement : Char := Char.ofNat 0xFFFD

/-- The characters of some bytes; `none` stands for bytes that are none. -/
def decodeFrom (bytes : List UInt8) : List (Option Char) :=
  match bytes with
  | [] => []
  | b :: rest =>
    match lead? b with
    | none => none :: decodeFrom rest
    | some (size, low, high) =>
      let more := sequence size low high rest
      let char :=
        if more.length + 1 = size then some (Char.ofNat (codePoint size b more)) else none
      char :: decodeFrom (rest.drop more.length)
termination_by bytes.length
decreasing_by all_goals simp; try omega

def decodeLossy (bytes : List UInt8) : String :=
  String.ofList ((decodeFrom bytes).map fun c => c.getD replacement)

def decode? (bytes : List UInt8) : Option String :=
  let chars := decodeFrom bytes
  if chars.all Option.isSome then some (String.ofList (chars.filterMap id)) else none

end ModuleHost.Text.Utf8
