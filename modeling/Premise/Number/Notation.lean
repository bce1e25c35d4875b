import Premise.Number.Shortest

/-!
How numbers are written: plainly (never with an exponent), the way documents show them (whole
numbers as integers), and as a JSON number.
-/

namespace Premise.Number

def digitText (n : Nat) : List Char := Nat.toDigits 10 n

/-- A decimal without exponent: zeros fill up to the point, and nothing follows a whole number. -/
def plainDigits (d : Decimal) : List Char :=
  let ds := digitText d.digits
  if 0 ≤ d.exponent then ds ++ List.replicate d.exponent.toNat '0'
  else
    let places := (-d.exponent).toNat
    if places < ds.length then
      ds.take (ds.length - places) ++ '.' :: ds.drop (ds.length - places)
    else '0' :: '.' :: (List.replicate (places - ds.length) '0' ++ ds)

def signText (negative : Bool) : String := if negative then "-" else ""

/-- The fewest digits that identify a number, written without exponent; a tie goes up. -/
def plain (x : Number) : String :=
  match parts x with
  | .nan => "NaN"
  | .infinite negative => signText negative ++ "inf"
  | .finite negative m q =>
    signText negative ++ String.ofList (plainDigits (shortest .up m q (isNarrowBelow x)))

/-- Whole numbers below this size are shown as integers. -/
def integerBound : Nat := 1000000000000000

/-- An integer, without a sign on zero. -/
def integerText (negative : Bool) (n : Nat) : String :=
  signText (negative && n != 0) ++ String.ofList (digitText n)

/-- A number as documents show it. -/
def display (x : Number) : String :=
  match integer? x with
  | some (negative, n) => if n < integerBound then integerText negative n else plain x
  | none => plain x

/-- Whole numbers below this size are JSON integers. -/
def jsonIntegerBound : Nat := 9000000000000000

/-- Exponents of the leading digit that JSON numbers write positionally. -/
def isPositional (e : Int) : Bool := -5 ≤ e && e < 16

/-- A fractional JSON number: positional with a point for middling exponents, otherwise one digit
before the point and a signed exponent. A tie between decimals goes to the even one. -/
def jsonFraction (d : Decimal) : List Char :=
  let ds := digitText d.digits
  let e := d.exponent + ds.length - 1
  if isPositional e then
    if 0 ≤ d.exponent then plainDigits d ++ ['.', '0'] else plainDigits d
  else
    let mantissa := match ds with
      | [] => []
      | [c] => [c]
      | c :: cs => c :: '.' :: cs
    mantissa ++ 'e' :: (if e < 0 then '-' else '+') :: digitText e.natAbs

/-- A number as JSON text; NaN and the infinities have none and are `null`. -/
def json (x : Number) : String :=
  match parts x with
  | .finite negative m q =>
    match whole? m q with
    | some n =>
      if n < jsonIntegerBound then integerText negative n
      else signText negative ++ String.ofList (jsonFraction (shortest .toEven m q (isNarrowBelow x)))
    | none =>
      signText negative ++ String.ofList (jsonFraction (shortest .toEven m q (isNarrowBelow x)))
  | _ => "null"

end Premise.Number
