import ModuleHost.Decimal.Shortest
import ModuleHost.Json.Quote
import ModuleHost.Json.Value
import ModuleHost.Text.Escaped

/-!
Printing JSON values without any space, printing them over several lines, and showing them in
messages.
-/

namespace ModuleHost.Json

open ModuleHost.Decimal

def Number.print : Number → String
  | .int n => toString n
  | .real x => x.write

namespace Value

mutual

def print : Value → String
  | null => "null"
  | bool b => if b then "true" else "false"
  | number n => n.print
  | string s => quote s
  | array elements => "[" ++ printAll elements ++ "]"
  | object entries => "\x7b" ++ printEntries entries ++ "\x7d"

def printAll : List Value → String
  | [] => ""
  | [v] => v.print
  | v :: rest => v.print ++ "," ++ printAll rest

def printEntries : List (String × Value) → String
  | [] => ""
  | [(k, v)] => quote k ++ ":" ++ v.print
  | (k, v) :: rest => quote k ++ ":" ++ v.print ++ "," ++ printEntries rest

end

def indent (depth : Nat) : String :=
  "\n" ++ String.ofList (List.replicate (2 * depth) ' ')

mutual

def printLines (depth : Nat) : Value → String
  | array [] => "[]"
  | array elements => "[" ++ linesOfAll (depth + 1) elements ++ indent depth ++ "]"
  | object [] => "\x7b\x7d"
  | object entries => "\x7b" ++ linesOfEntries (depth + 1) entries ++ indent depth ++ "\x7d"
  | null => "null"
  | bool b => if b then "true" else "false"
  | number n => n.print
  | string s => quote s

def linesOfAll (depth : Nat) : List Value → String
  | [] => ""
  | [v] => indent depth ++ v.printLines depth
  | v :: rest => indent depth ++ v.printLines depth ++ "," ++ linesOfAll depth rest

def linesOfEntries (depth : Nat) : List (String × Value) → String
  | [] => ""
  | [(k, v)] => indent depth ++ quote k ++ ": " ++ v.printLines depth
  | (k, v) :: rest =>
    indent depth ++ quote k ++ ": " ++ v.printLines depth ++ "," ++ linesOfEntries depth rest

end

mutual

/-- The form that names the kind of every value. -/
def display : Value → String
  | null => "Null"
  | bool b => "Bool(" ++ (if b then "true" else "false") ++ ")"
  | number n => "Number(" ++ n.print ++ ")"
  | string s => "String(" ++ Text.escaped s ++ ")"
  | array elements => "Array [" ++ displayAll elements ++ "]"
  | object entries => "Object \x7b" ++ displayEntries entries ++ "\x7d"

def displayAll : List Value → String
  | [] => ""
  | [v] => v.display
  | v :: rest => v.display ++ ", " ++ displayAll rest

def displayEntries : List (String × Value) → String
  | [] => ""
  | [(k, v)] => Text.escaped k ++ ": " ++ v.display
  | (k, v) :: rest => Text.escaped k ++ ": " ++ v.display ++ ", " ++ displayEntries rest

end

end Value

end ModuleHost.Json
