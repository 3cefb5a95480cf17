import ModuleHost.Json.Print

/-!
What can be wrong with JSON text, or with a value that is to be understood as something else, and
where. A place is a byte offset, told as a line and a column in bytes.
-/

namespace ModuleHost.Json

inductive Found where
  | null
  | bool (b : Bool)
  | number (n : Number)
  | string (s : String)
  | sequence
  | map

def Found.text : Found → String
  | .null => "null"
  | .bool b => "boolean `" ++ (if b then "true" else "false") ++ "`"
  | .number (.int n) => "integer `" ++ toString n ++ "`"
  | .number (.real x) => "floating point `" ++ x.write ++ "`"
  | .string s => "string " ++ Text.escaped s
  | .sequence => "sequence"
  | .map => "map"

def Value.found : Value → Found
  | .null => .null
  | .bool b => .bool b
  | .number n => .number n
  | .string s => .string s
  | .array _ => .sequence
  | .object _ => .map

def oneOf (names : List String) : String :=
  let quoted := names.map fun n => "`" ++ n ++ "`"
  match quoted with
  | [] => "there are no variants"
  | [a] => "expected " ++ a
  | [a, b] => "expected " ++ a ++ " or " ++ b
  | many => "expected one of " ++ String.intercalate ", " many

inductive Cause where
  | endOfList
  | endOfObject
  | endOfString
  | endOfValue
  | colonExpected
  | commaOrListEnd
  | commaOrObjectEnd
  | identExpected
  | valueExpected
  | invalidEscape
  | invalidNumber
  | numberOutOfRange
  | controlCharacter
  | keyNotString
  | loneSurrogate
  | endOfEscape
  | trailingComma
  | trailingCharacters
  | recursionLimit
  | invalidType (found : Found) (expected : String)
  | invalidValue (found : Found) (expected : String)
  | invalidLength (length : Nat) (expected : String)
  | missingField (name : String)
  | duplicateField (name : String)
  | unknownVariant (name : String) (known : List String)

def Cause.message : Cause → String
  | .endOfList => "EOF while parsing a list"
  | .endOfObject => "EOF while parsing an object"
  | .endOfString => "EOF while parsing a string"
  | .endOfValue => "EOF while parsing a value"
  | .colonExpected => "expected `:`"
  | .commaOrListEnd => "expected `,` or `]`"
  | .commaOrObjectEnd => "expected `,` or `\x7d`"
  | .identExpected => "expected ident"
  | .valueExpected => "expected value"
  | .invalidEscape => "invalid escape"
  | .invalidNumber => "invalid number"
  | .numberOutOfRange => "number out of range"
  | .controlCharacter =>
    "control character (\\u0000-\\u001F) found while parsing a string"
  | .keyNotString => "key must be a string"
  | .loneSurrogate => "lone leading surrogate in hex escape"
  | .endOfEscape => "unexpected end of hex escape"
  | .trailingComma => "trailing comma"
  | .trailingCharacters => "trailing characters"
  | .recursionLimit => "recursion limit exceeded"
  | .invalidType f e => "invalid type: " ++ f.text ++ ", expected " ++ e
  | .invalidValue f e => "invalid value: " ++ f.text ++ ", expected " ++ e
  | .invalidLength n e => "invalid length " ++ toString n ++ ", expected " ++ e
  | .missingField n => "missing field `" ++ n ++ "`"
  | .duplicateField n => "duplicate field `" ++ n ++ "`"
  | .unknownVariant n known => "unknown variant `" ++ n ++ "`, " ++ oneOf known

/-- A fault in a text has a place; a fault in a value that has been read has none. -/
structure Fault where
  cause : Cause
  offset : Option Nat

def lineColumn (source : List Char) (offset : Nat) : Nat × Nat :=
  go 1 0 source offset
where
  go (line column : Nat) : List Char → Nat → Nat × Nat
    | [], _ => (line, column)
    | c :: rest, left =>
      if left < c.utf8Size then (line, column + left)
      else if c = '\n' then go (line + 1) 0 rest (left - 1)
      else go line (column + c.utf8Size) rest (left - c.utf8Size)

def Fault.message (source : String) (f : Fault) : String :=
  match f.offset with
  | none => f.cause.message
  | some offset =>
    let (line, column) := lineColumn source.toList offset
    f.cause.message ++ " at line " ++ toString line ++ " column " ++ toString column

end ModuleHost.Json
