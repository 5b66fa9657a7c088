import SourceDesk.Double.Basic

/-!
The shortest decimal that reads back as a given number, and its text. Among the
decimals with the fewest digits that reads back it is the one nearest to the number.
-/

namespace SourceDesk.Double

/-- The decimal `digits * 10 ^ exponent`. -/
structure Decimal where
  digits : Nat
  exponent : Int
  deriving DecidableEq, Repr

/-- A ratio over a power of ten, as a ratio. -/
def scaleTen (num den : Nat) (e : Int) : Nat × Nat :=
  if 0 ≤ e then (num, den * Nat.pow 10 e.toNat) else (num * Nat.pow 10 (-e).toNat, den)

/-- The number that a decimal reads as. -/
def Decimal.toDouble? (d : Decimal) : Option Double :=
  if 0 ≤ d.exponent then nearest? (d.digits * Nat.pow 10 d.exponent.toNat) 1
  else nearest? d.digits (Nat.pow 10 (-d.exponent).toNat)

/-- The number of decimal places before the point of a positive number, counted
below zero for a number whose first places are empty. -/
def magnitude (x : Double) : Int :=
  ((Nat.toDigits 10 (x.toRatio.1 * Nat.pow 10 324 / x.toRatio.2)).length : Int) - 324

/-- The decimal with at most `n` digits that reads back as the number, the nearer
one if there are two. -/
def withDigits? (x : Double) (n : Nat) : Option Decimal :=
  let e := x.magnitude - n
  let (num, den) := scaleTen x.toRatio.1 x.toRatio.2 e
  let below : Decimal := ⟨num / den, e⟩
  let above : Decimal := ⟨num / den + 1, e⟩
  match decide (below.toDouble? = some x), decide (above.toDouble? = some x) with
  | true, true => some ⟨roundRatio num den, e⟩
  | true, false => some below
  | false, true => some above
  | false, false => none

/-- The first decimal that reads back, trying `n` digits first and then one more at
a time. -/
def searchFrom (x : Double) : (tries n : Nat) → Decimal
  | 0, n => ⟨(scaleTen x.toRatio.1 x.toRatio.2 (x.magnitude - n)).1, x.magnitude - n⟩
  | tries + 1, n =>
    match x.withDigits? n with
    | some d => d
    | none => searchFrom x tries (n + 1)

/-- The shortest decimal that reads back as the number; seventeen digits always do. -/
def shortest (x : Double) : Decimal := searchFrom x 17 1

/-- Digits without the zeros at their end. -/
def trimZeros (ds : List Char) : List Char := (ds.reverse.dropWhile (· == '0')).reverse

/-- Where positional notation starts and ends, by the exponent of the first digit. -/
def positionalFrom : Int := -5

def positionalTo : Int := 15

/-- The text of a number: positional with a digit on either side of the point, or
outside the positional range digits with an exponent. -/
def text (x : Double) : String :=
  if x.isZero then "0.0"
  else
    let d := x.shortest
    let all := Nat.toDigits 10 d.digits
    let ds := trimZeros all
    let lead : Int := d.exponent + all.length - 1
    if positionalFrom ≤ lead ∧ lead ≤ positionalTo then
      if lead < 0 then
        "0." ++ String.ofList (List.replicate (-lead - 1).toNat '0' ++ ds)
      else
        let point := lead.toNat + 1
        let whole := ds.take point ++ List.replicate (point - ds.length) '0'
        let rest := ds.drop point
        String.ofList whole ++ "." ++ (if rest.isEmpty then "0" else String.ofList rest)
    else
      let mantissa :=
        match ds with
        | [] => ""
        | [c] => c.toString
        | c :: cs => c.toString ++ "." ++ String.ofList cs
      mantissa ++ "e" ++ (if lead < 0 then "-" else "+") ++ toString lead.natAbs

end SourceDesk.Double
