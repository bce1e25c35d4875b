import Premise.Json

/-!
The tokens of JSON text.
-/

namespace Premise.Json

inductive Token where
  | openBracket
  | closeBracket
  | openBrace
  | closeBrace
  | comma
  | colon
  | value (v : Json)

def isSpace (c : Char) : Bool := c = ' ' || c = '\t' || c = '\n' || c = '\r'

def hexValue? (c : Char) : Option Nat :=
  if '0' ≤ c ∧ c ≤ '9' then some (c.toNat - '0'.toNat)
  else if 'a' ≤ c ∧ c ≤ 'f' then some (c.toNat - 'a'.toNat + 10)
  else if 'A' ≤ c ∧ c ≤ 'F' then some (c.toNat - 'A'.toNat + 10)
  else none

/-- The 16-bit unit written as four hexadecimal digits. -/
def unit? (a b c d : Char) : Option Nat := do
  let a ← hexValue? a
  let b ← hexValue? b
  let c ← hexValue? c
  let d ← hexValue? d
  some (((a * 16 + b) * 16 + c) * 16 + d)

def isHighHalf (n : Nat) : Bool := 0xD800 ≤ n && n < 0xDC00

def isLowHalf (n : Nat) : Bool := 0xDC00 ≤ n && n < 0xE000

/-- The character that a letter behind a backslash stands for. -/
def escaped? (c : Char) : Option Char :=
  if c = '"' then some '"'
  else if c = '\\' then some '\\'
  else if c = '/' then some '/'
  else if c = 'b' then some (Char.ofNat 8)
  else if c = 'f' then some (Char.ofNat 12)
  else if c = 'n' then some '\n'
  else if c = 'r' then some '\r'
  else if c = 't' then some '\t'
  else none

/-- Reads a text up to its closing quote. `read` holds the characters so far, the last first, and
`whole` is lost at half a surrogate pair. -/
def scanText (read : List Char) (whole : Bool) : List Char → Option (Json × List Char)
  | [] => none
  | '"' :: rest =>
    some (if whole then .text (String.ofList read.reverse) else .halfText, rest)
  | '\\' :: 'u' :: a :: b :: c :: d :: rest =>
    match unit? a b c d with
    | none => none
    | some n =>
      if isHighHalf n then
        match rest with
        | '\\' :: 'u' :: e :: f :: g :: h :: rest' =>
          match unit? e f g h with
          | none => none
          | some m =>
            if isLowHalf m then
              let code := 0x10000 + (n - 0xD800) * 0x400 + (m - 0xDC00)
              scanText (Char.ofNat code :: read) whole rest'
            else scanText read false rest'
        | rest => scanText read false rest
      else if isLowHalf n then scanText read false rest
      else scanText (Char.ofNat n :: read) whole rest
  | '\\' :: c :: rest =>
    match escaped? c with
    | none => none
    | some c => scanText (c :: read) whole rest
  | c :: rest => if c.toNat < 0x20 then none else scanText (c :: read) whole rest

/-- Whether a run of characters is a number: no leading zero, digits on both sides of a point,
digits in an exponent. -/
def isNumber (cs : List Char) : Bool :=
  let body := match cs with
    | '-' :: r => r
    | r => r
  let whole := body.takeWhile Char.isDigit
  let rest := body.dropWhile Char.isDigit
  let wholeGood := !whole.isEmpty && (whole.length = 1 || whole.head? != some '0')
  let fractionGood := match rest with
    | '.' :: r => !(r.takeWhile Char.isDigit).isEmpty
    | _ => true
  let tail := match rest with
    | '.' :: r => r.dropWhile Char.isDigit
    | r => r
  let exponentGood := match tail with
    | [] => true
    | c :: r =>
      let digits := match r with
        | '+' :: ds => ds
        | '-' :: ds => ds
        | ds => ds
      (c = 'e' || c = 'E') && !digits.isEmpty && digits.all Char.isDigit
  wholeGood && fractionGood && exponentGood

def isNumberChar (c : Char) : Bool :=
  c.isDigit || c = '-' || c = '+' || c = '.' || c = 'e' || c = 'E'

/-- All tokens of a text; each step reads at least one character. -/
def scan : Nat → List Token → List Char → Option (List Token)
  | 0, _, _ => none
  | _ + 1, read, [] => some read.reverse
  | steps + 1, read, c :: rest =>
    if isSpace c then scan steps read rest
    else if c = '[' then scan steps (.openBracket :: read) rest
    else if c = ']' then scan steps (.closeBracket :: read) rest
    else if c = '\x7b' then scan steps (.openBrace :: read) rest
    else if c = '\x7d' then scan steps (.closeBrace :: read) rest
    else if c = ',' then scan steps (.comma :: read) rest
    else if c = ':' then scan steps (.colon :: read) rest
    else if c = '"' then
      match scanText [] true rest with
      | none => none
      | some (v, rest) => scan steps (.value v :: read) rest
    else if c.isDigit || c = '-' then
      let number := (c :: rest).takeWhile isNumberChar
      if isNumber number then
        scan steps (.value (.number (String.ofList number)) :: read)
          ((c :: rest).dropWhile isNumberChar)
      else none
    else
      let word := (c :: rest).takeWhile Char.isAlpha
      let after := (c :: rest).dropWhile Char.isAlpha
      if word = ['n', 'u', 'l', 'l'] then scan steps (.value .null :: read) after
      else if word = ['t', 'r', 'u', 'e'] then scan steps (.value (.boolean true) :: read) after
      else if word = ['f', 'a', 'l', 's', 'e'] then
        scan steps (.value (.boolean false) :: read) after
      else none

def tokens? (s : String) : Option (List Token) := scan (s.length + 1) [] s.toList

end Premise.Json
