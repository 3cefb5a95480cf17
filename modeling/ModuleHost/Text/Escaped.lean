import ModuleHost.Text.UnshownTable
import ModuleHost.Text.CharClass

/-!
A text in double quotes as messages show it: every character that could not be told from its picture
is written as its code point.
-/

namespace ModuleHost.Text

def isUnshown (c : Char) : Bool :=
  if c.toNat < 0x80 then c.toNat < 0x20 || c.toNat = 0x7F else inRanges unshownRanges c

def escapedChar (c : Char) : List Char :=
  if c.toNat = 0x22 || c = '\\' then ['\\', c]
  else if c = '\n' then ['\\', 'n']
  else if c = '\r' then ['\\', 'r']
  else if c = '\t' then ['\\', 't']
  else if c.toNat = 0 then ['\\', '0']
  else if isUnshown c then ['\\', 'u', '{'] ++ Nat.toDigits 16 c.toNat ++ ['}']
  else [c]

def escaped (s : String) : String :=
  "\"" ++ String.ofList (s.toList.flatMap escapedChar) ++ "\""

end ModuleHost.Text
