import ModuleHost.Json.Quote
import ModuleHost.Text.CharClass

/-!
Names in generated code. A name that can stand as it is follows a dot or is a key by itself; any
other is written as a string literal.
-/

namespace ModuleHost.Wrap

open ModuleHost.Text

def isNameStart (c : Char) : Bool :=
  c = '$' || c = '_' || isAlphabetic c

def isNamePart (c : Char) : Bool :=
  c = '$' || c = '_' || isAlphanumeric c

/-- Whether a name can stand behind a dot or as a bare key. -/
def isBareName (name : String) : Bool :=
  match name.toList with
  | [] => false
  | c :: rest => isNameStart c && rest.all isNamePart

def member (object name : String) : String :=
  if isBareName name then object ++ "." ++ name else object ++ "[" ++ Json.quote name ++ "]"

def patternKey (name : String) : String :=
  if isBareName name then name else Json.quote name

def inBraces (inner : String) : String :=
  "\x7b " ++ inner ++ " \x7d"

end ModuleHost.Wrap
