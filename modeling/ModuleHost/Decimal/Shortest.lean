import ModuleHost.Decimal.Binary64

/-!
The fewest decimal digits that read back as a given number, and the two ways in which numbers are
written with them.
-/

namespace ModuleHost.Decimal

namespace Binary64

/-- The quotients around the magnitude that read back as the number, both over one denominator, and
whether the two ends do. -/
structure Interval where
  low : Nat
  value : Nat
  high : Nat
  den : Nat
  closed : Bool

def interval (x : Binary64) : Interval :=
  -- below a power of two the numbers are twice as dense
  let below := if x.mantissa = Nat.pow 2 52 && x.exponent > leastExponent then 1 else 2
  let (unit, den) :=
    if 2 ≤ x.exponent then (Nat.pow 2 (x.exponent - 2).toNat, 1)
    else (1, Nat.pow 2 (2 - x.exponent).toNat)
  { low := (4 * x.mantissa - below) * unit
    value := 4 * x.mantissa * unit
    high := (4 * x.mantissa + 2) * unit
    den := den
    closed := x.mantissa % 2 = 0 }

def Interval.holds (i : Interval) (num factor : Nat) : Bool :=
  if i.closed then i.low * factor ≤ num && num ≤ i.high * factor
  else i.low * factor < num && num < i.high * factor

def onGrid? (i : Interval) (k : Int) : Option Nat :=
  let up := if 0 ≤ k then Nat.pow 10 k.toNat else 1
  let down := if 0 ≤ k then 1 else Nat.pow 10 (-k).toNat
  let num := i.value * down
  let step := i.den * up
  let floor := num / step
  let twice := 2 * (num % step)
  let (first, second) :=
    if twice > step || (twice = step && floor % 2 = 1) then (floor + 1, floor) else (floor, floor + 1)
  [first, second].find? fun n => n ≠ 0 && i.holds (n * step) down

def finer (i : Interval) : Nat → Int → Nat × Int
  | 0, k => (i.value * Nat.pow 10 (-k).toNat / i.den, k)
  | fuel + 1, k =>
    match onGrid? i k with
    | some n => (n, k)
    | none => finer i fuel (k - 1)

def shortest (x : Binary64) : Nat × Int :=
  if x.mantissa = 0 then (0, 0)
  else
    let i := x.interval
    -- a grid coarser than the number, and each one that is tried is finer
    let start : Int :=
      if i.value / i.den = 0 then -((i.den / i.value).log2 / 4 : Nat)
      else ((i.value / i.den).log2 / 3 + 1 : Nat)
    let (n, k) := finer i 400 start
    dropZeros n.log2 n k
where
  dropZeros : Nat → Nat → Int → Nat × Int
    | 0, n, k => (n, k)
    | fuel + 1, n, k => if n % 10 = 0 && n ≠ 0 then dropZeros fuel (n / 10) (k + 1) else (n, k)

end Binary64

def digits (n : Nat) : List Char :=
  Nat.toDigits 10 n

def zeros (n : Nat) : List Char :=
  List.replicate n '0'

def sign (negative : Bool) : List Char :=
  if negative then ['-'] else []

def positional (ds : List Char) (place : Int) : List Char :=
  if ds.length ≤ place then ds ++ zeros (place.toNat - ds.length) ++ ['.', '0']
  else if 0 < place then ds.take place.toNat ++ ['.'] ++ ds.drop place.toNat
  else ['0', '.'] ++ zeros (-place).toNat ++ ds

def scientific (ds : List Char) (exponent : Int) : List Char :=
  let point := if ds.length = 1 then [] else '.' :: ds.tail
  ds.take 1 ++ point ++ ['e'] ++ sign (exponent < 0) ++ digits exponent.natAbs

/-- A number with a point or an exponent, so that it never looks like an integer. The point is
written out for magnitudes from a hundred-thousandth up to sixteen digits. -/
def Binary64.write (x : Binary64) : String :=
  let (n, k) := x.shortest
  let ds := digits n
  let place := ds.length + k
  let body :=
    if n = 0 then ['0', '.', '0']
    else if -5 < place && place ≤ 16 then positional ds place
    else scientific ds (place - 1)
  String.ofList (sign x.negative ++ body)

end ModuleHost.Decimal
