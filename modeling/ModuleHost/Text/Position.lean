/-!
Places in a text. Offsets count UTF-8 bytes; a line and column are found by walking the text up to
an offset. A final line break does not open another line.
-/

namespace ModuleHost.Text

def byteLength (s : List Char) : Nat :=
  s.foldr (fun c n => c.utf8Size + n) 0

/-- What is left after the first `n` bytes; `none` inside a character or behind the end. -/
def dropBytes? : List Char → Nat → Option (List Char)
  | s, 0 => some s
  | [], _ + 1 => none
  | c :: rest, n => if c.utf8Size ≤ n then dropBytes? rest (n - c.utf8Size) else none

def takeBytes? : List Char → Nat → Option (List Char)
  | _, 0 => some []
  | [], _ + 1 => none
  | c :: rest, n =>
    if c.utf8Size ≤ n then (takeBytes? rest (n - c.utf8Size)).map (c :: ·) else none

def slice? (s : List Char) (lo hi : Nat) : Option (List Char) :=
  if lo ≤ hi then (dropBytes? s lo).bind (takeBytes? · (hi - lo)) else none

structure Position where
  line : Nat
  column : Nat
  deriving Repr, DecidableEq

/-- A line feed ends a line, and so does a carriage return on its own, unless the text ends there. -/
def endsLine (c : Char) (rest : List Char) : Bool :=
  !rest.isEmpty && (c == '\n' || (c == '\r' && rest.head? != some '\n'))

def units16 (c : Char) : Nat :=
  if c.utf8Size = 4 then 2 else 1

def Position.advance (p : Position) (c : Char) (rest : List Char) : Position :=
  if endsLine c rest then ⟨p.line + 1, 0⟩ else ⟨p.line, p.column + units16 c⟩

def positionFrom (p : Position) : List Char → Nat → Position
  | [], _ => p
  | c :: rest, n => if n < c.utf8Size then p else positionFrom (p.advance c rest) rest (n - c.utf8Size)

def positionAt (s : List Char) (offset : Nat) : Position :=
  positionFrom ⟨1, 0⟩ s offset

end ModuleHost.Text
