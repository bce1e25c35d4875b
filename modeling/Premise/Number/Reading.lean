import Premise.Number.Remainder

/-!
Numbers read from text: an optional sign, digits with an optional point, an optional exponent. The
decimal that is written is rounded once, to the nearest number.
-/

namespace Premise.Number

def digitsValue (ds : List Char) : Nat :=
  ds.foldl (fun n c => 10 * n + (c.toNat - '0'.toNat)) 0

/-- A decimal as it is written, before rounding. -/
structure Written where
  whole : List Char
  fraction : List Char
  exponent : Int

/-- The number nearest to a written decimal. -/
def Written.value (w : Written) : Number :=
  let m := digitsValue (w.whole ++ w.fraction)
  let e := w.exponent - w.fraction.length
  -- Beyond these exponents every decimal of so many digits is zero or infinite.
  if m = 0 then 0
  else if e < -(1100 + w.whole.length + w.fraction.length : Int) then 0
  else if e > 400 then infinity
  else Float.ofScientific m (e < 0) e.natAbs

/-- Digits with an optional sign, as an exponent has them. -/
def exponent? : List Char → Option Int
  | '-' :: ds => if !ds.isEmpty && ds.all Char.isDigit then some (-(digitsValue ds)) else none
  | '+' :: ds => if !ds.isEmpty && ds.all Char.isDigit then some (digitsValue ds) else none
  | ds => if !ds.isEmpty && ds.all Char.isDigit then some (digitsValue ds) else none

/-- Reads `12`, `12.`, `1.5` or `.5`, each with an optional exponent. -/
def unsigned? (cs : List Char) : Option Written :=
  let whole := cs.takeWhile Char.isDigit
  let rest := cs.dropWhile Char.isDigit
  let fraction := match rest with
    | '.' :: r => r.takeWhile Char.isDigit
    | _ => []
  let tail := match rest with
    | '.' :: r => r.dropWhile Char.isDigit
    | r => r
  if whole.isEmpty && fraction.isEmpty then none
  else
    match tail with
    | [] => some ⟨whole, fraction, 0⟩
    | c :: r => if c = 'e' ∨ c = 'E' then (exponent? r).map fun e => ⟨whole, fraction, e⟩ else none

def negateIf (negative : Bool) (x : Number) : Number := if negative then -x else x

/-- A decimal number with an optional minus sign. -/
def decimal? (cs : List Char) : Option Number :=
  match cs with
  | '-' :: r => (unsigned? r).map fun w => -w.value
  | r => (unsigned? r).map Written.value

def isNamed (names : List String) (cs : List Char) : Bool :=
  names.contains (String.ofList (cs.map Char.toLower))

/-- A decimal number, an infinity or NaN, with either sign in front. -/
def extended? (cs : List Char) : Option Number :=
  let negative := cs.head? = some '-'
  let body := match cs with
    | '-' :: r => r
    | '+' :: r => r
    | r => r
  if isNamed ["inf", "infinity"] body then some (negateIf negative infinity)
  else if isNamed ["nan"] body then some (negateIf negative nan)
  else (unsigned? body).map fun w => negateIf negative w.value

end Premise.Number
