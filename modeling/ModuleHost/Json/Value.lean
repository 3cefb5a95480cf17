import ModuleHost.Decimal.Binary64

/-!
JSON values. An object keeps its entries as they were written; `normalize` sorts them by key and
keeps the last one of each, and values are compared in that form.
-/

namespace ModuleHost.Json

open ModuleHost.Decimal

/-- Numbers without point and exponent stay integers as far as 64 bits reach. -/
inductive Number where
  | int (n : Int)
  | real (x : Binary64)
  deriving DecidableEq, Repr

def Number.same : Number → Number → Bool
  | .int a, .int b => a = b
  | .real a, .real b => a.same b
  | _, _ => false

inductive Value where
  | null
  | bool (b : Bool)
  | number (n : Number)
  | string (s : String)
  | array (elements : List Value)
  | object (entries : List (String × Value))
  deriving Repr, Inhabited

/-- Puts an entry in its place among entries sorted by key; an entry of that key gives way. -/
def insertEntry {α : Type} (key : String) (value : α) : List (String × α) → List (String × α)
  | [] => [(key, value)]
  | (k, v) :: rest =>
    if key < k then (key, value) :: (k, v) :: rest
    else if key = k then (key, value) :: rest
    else (k, v) :: insertEntry key value rest

def sortEntries {α : Type} (entries : List (String × α)) : List (String × α) :=
  entries.foldl (fun sorted e => insertEntry e.1 e.2 sorted) []

namespace Value

mutual

def normalize : Value → Value
  | array elements => array (normalizeAll elements)
  | object entries => object (sortEntries (normalizeEntries entries))
  | v => v

def normalizeAll : List Value → List Value
  | [] => []
  | v :: rest => v.normalize :: normalizeAll rest

def normalizeEntries : List (String × Value) → List (String × Value)
  | [] => []
  | (k, v) :: rest => (k, v.normalize) :: normalizeEntries rest

end

mutual

def sameNormal : Value → Value → Bool
  | null, null => true
  | bool a, bool b => a == b
  | number a, number b => a.same b
  | string a, string b => a == b
  | array a, array b => sameAll a b
  | object a, object b => sameEntries a b
  | _, _ => false

def sameAll : List Value → List Value → Bool
  | [], [] => true
  | a :: as, b :: bs => a.sameNormal b && sameAll as bs
  | _, _ => false

def sameEntries : List (String × Value) → List (String × Value) → Bool
  | [], [] => true
  | (k, a) :: as, (l, b) :: bs => k == l && a.sameNormal b && sameEntries as bs
  | _, _ => false

end

def same (a b : Value) : Bool :=
  a.normalize.sameNormal b.normalize

def get? (key : String) : Value → Option Value
  | object entries => (entries.reverse.find? (·.1 = key)).map Prod.snd
  | _ => none

def nat (n : Nat) : Value :=
  number (.int n)

def ofOption (v : Option Value) : Value :=
  v.getD null

def strings (l : List String) : Value :=
  array (l.map string)

end Value

end ModuleHost.Json
