/-!
Magnitudes of binary floating point numbers with 53 significant bits, in exact
arithmetic: `nearest?` rounds a ratio of naturals, and products and quotients are
rounded ratios again.
-/

namespace SourceDesk

/-- The magnitude `mantissa * 2 ^ exponent`. -/
structure Double where
  mantissa : Nat
  exponent : Int
  deriving DecidableEq, Repr

namespace Double

/-- The least exponent: numbers close to zero have no finer grid. -/
def minExponent : Int := -1074

/-- The greatest exponent: beyond it there are no finite numbers. -/
def maxExponent : Int := 971

def zero : Double := ⟨0, minExponent⟩

def isZero (x : Double) : Bool := x.mantissa == 0

/-- A ratio over a power of two, as a ratio. -/
def scale (num den : Nat) (e : Int) : Nat × Nat :=
  if 0 ≤ e then (num, den * Nat.pow 2 e.toNat) else (num * Nat.pow 2 (-e).toNat, den)

/-- The natural nearest to a ratio; of two, the even one. -/
def roundRatio (num den : Nat) : Nat :=
  let q := num / den
  let twice := 2 * (num % den)
  if twice < den then q
  else if den < twice then q + 1
  else if q % 2 = 0 then q else q + 1

/-- The exponent of the grid on which a positive ratio is rounded: the one that
leaves 53 bits before the point, unless that is below the least. -/
def gridExponent (num den : Nat) : Int :=
  let e : Int := (num.log2 : Int) - (den.log2 : Int) - 52
  let (n, d) := scale num den e
  let e := if n < d * Nat.pow 2 52 then e - 1 else e
  max e minExponent

/-- The number nearest to a ratio, of two the one with the even mantissa; nothing
if it would not be finite. -/
def nearest? (num den : Nat) : Option Double :=
  if num = 0 then some zero
  else
    let e := gridExponent num den
    let (n, d) := scale num den e
    let m := roundRatio n d
    let x : Double := if m = Nat.pow 2 53 then ⟨Nat.pow 2 52, e + 1⟩ else ⟨m, e⟩
    if maxExponent < x.exponent then none else some x

/-- Numerator and denominator of a number. -/
def toRatio (x : Double) : Nat × Nat :=
  if 0 ≤ x.exponent then (x.mantissa * Nat.pow 2 x.exponent.toNat, 1)
  else (x.mantissa, Nat.pow 2 (-x.exponent).toNat)

/-- The product, rounded. -/
def mul? (x y : Double) : Option Double :=
  nearest? (x.toRatio.1 * y.toRatio.1) (x.toRatio.2 * y.toRatio.2)

/-- The quotient, rounded. -/
def div? (x y : Double) : Option Double :=
  nearest? (x.toRatio.1 * y.toRatio.2) (x.toRatio.2 * y.toRatio.1)

/-- The power of ten, rounded. -/
def powerOfTen? (n : Nat) : Option Double := nearest? (Nat.pow 10 n) 1

end Double

end SourceDesk
