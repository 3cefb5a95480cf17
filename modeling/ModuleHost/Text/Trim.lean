import ModuleHost.Text.CharClass
import ModuleHost.Text.Position

/-!
White space at the ends of a text, and where one text occurs in another.
-/

namespace ModuleHost.Text

def trimStart (s : List Char) : List Char :=
  s.dropWhile isBlank

def dropEndWhile (p : Char → Bool) (s : List Char) : List Char :=
  (s.reverse.dropWhile p).reverse

def trimEnd (s : List Char) : List Char :=
  dropEndWhile isBlank s

/-- The byte offset of the first occurrence of a text. -/
def find? (needle : List Char) : List Char → Option Nat
  | [] => if needle.isEmpty then some 0 else none
  | c :: rest =>
    if needle.isPrefixOf (c :: rest) then some 0
    else (find? needle rest).map (c.utf8Size + ·)

def dropStart? : List Char → List Char → Option (List Char)
  | [], s => some s
  | _ :: _, [] => none
  | p :: ps, c :: rest => if p = c then dropStart? ps rest else none

end ModuleHost.Text
