/-!
Finite numbers in the binary64 format and their arithmetic in exact terms: a result is the exact
quotient of two natural numbers, rounded to the nearest number of the format, ties to an even
mantissa. `Shortest` finds the fewest decimal digits that read back as the same number.
-/

namespace ModuleHost.Decimal

/-- A finite number of magnitude `mantissa * 2 ^ exponent`. The mantissa has at most 53 bits, and
less than that only if the exponent is the least one. -/
structure Binary64 where
  negative : Bool
  mantissa : Nat
  exponent : Int
  deriving DecidableEq, Repr

namespace Binary64

def leastExponent : Int := -1074

def greatestExponent : Int := 971

def zero : Binary64 := ⟨false, 0, leastExponent⟩

def neg (x : Binary64) : Binary64 := { x with negative := !x.negative }

def same (x y : Binary64) : Bool :=
  x = y || (x.mantissa = 0 && y.mantissa = 0)

def scaled (num den : Nat) (exponent : Int) : Nat × Nat :=
  if 0 ≤ exponent then (num, den * Nat.pow 2 exponent.toNat)
  else (num * Nat.pow 2 (-exponent).toNat, den)

def nearest (num den : Nat) : Nat :=
  let q := num / den
  let twice := 2 * (num % den)
  if twice > den || (twice = den && q % 2 = 1) then q + 1 else q

/-- The exponent that gives the quotient a mantissa of 53 bits, if the format reaches so low. -/
def exponentFor (num den : Nat) : Int :=
  let guess : Int := num.log2 - den.log2 - 52
  let (n, d) := scaled num den guess
  max leastExponent (if n / d < Nat.pow 2 52 then guess - 1 else guess)

/-- The nearest number to a quotient; `none` if the quotient is too large for the format. -/
def ofRatio (negative : Bool) (num den : Nat) : Option Binary64 :=
  if num = 0 || den = 0 then some { zero with negative }
  else
    let exponent := exponentFor num den
    let (n, d) := scaled num den exponent
    let m := nearest n d
    -- rounding up may take one bit too many
    let (m, exponent) := if m = Nat.pow 2 53 then (Nat.pow 2 52, exponent + 1) else (m, exponent)
    if exponent > greatestExponent then none else some ⟨negative, m, exponent⟩

def ratio (x : Binary64) : Nat × Nat :=
  if 0 ≤ x.exponent then (x.mantissa * Nat.pow 2 x.exponent.toNat, 1)
  else (x.mantissa, Nat.pow 2 (-x.exponent).toNat)

def ofNat (n : Nat) : Option Binary64 :=
  ofRatio false n 1

def mul (x y : Binary64) : Option Binary64 :=
  let (a, b) := x.ratio
  let (c, d) := y.ratio
  ofRatio (x.negative != y.negative) (a * c) (b * d)

def div (x y : Binary64) : Option Binary64 :=
  let (a, b) := x.ratio
  let (c, d) := y.ratio
  ofRatio (x.negative != y.negative) (a * d) (b * c)

def powerOfTen (n : Nat) : Option Binary64 :=
  ofRatio false (Nat.pow 10 n) 1

end Binary64

end ModuleHost.Decimal
