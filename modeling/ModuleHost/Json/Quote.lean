/-!
The written form of a string: between double quotes, with a backslash in front of quotes and
backslashes and an escape for every control character. Such a literal means the same in JSON and in
the code of a module.
-/

namespace ModuleHost.Json

def hexDigit (n : Nat) : Char :=
  if n < 10 then Char.ofNat ('0'.toNat + n) else Char.ofNat ('a'.toNat + (n - 10))

def doubleQuote : Char := Char.ofNat 0x22

def escape (c : Char) : List Char :=
  if c = doubleQuote then ['\\', doubleQuote]
  else if c = '\\' then ['\\', '\\']
  else if c.toNat = 0x08 then ['\\', 'b']
  else if c.toNat = 0x0C then ['\\', 'f']
  else if c = '\n' then ['\\', 'n']
  else if c = '\r' then ['\\', 'r']
  else if c = '\t' then ['\\', 't']
  else if c.toNat < 0x20 then ['\\', 'u', '0', '0', hexDigit (c.toNat / 16), hexDigit (c.toNat % 16)]
  else [c]

def quoteChars (s : List Char) : List Char :=
  doubleQuote :: (s.flatMap escape ++ [doubleQuote])

/-- A string literal for a text. -/
def quote (s : String) : String :=
  String.ofList (quoteChars s.toList)

end ModuleHost.Json
