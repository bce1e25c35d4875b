import Premise.Expr.Parse

/-!
Layouts: how an expression may be written.

A layout is a tree with the choices its text leaves open: where parentheses stand, which quotes
enclose a text, which digits stand for a number. `Valid` says that parentheses stand at least where
the precedence of the operators demands them; they may stand around anything else as well. A layout
comes to a sequence of tokens, and `Written` relates these to the texts that have white space
between any two of them.
-/

namespace Premise

namespace UnaryOperator

def symbol : UnaryOperator → String
  | .not => "!"
  | .negative => "-"

end UnaryOperator

namespace BinaryOperator

def symbol : BinaryOperator → String
  | .arithmetic op => op.symbol
  | .comparison op => op.symbol
  | .logical op => op.symbol
  | .sets op => op.symbol
  | .membership => "in"

/-- The level whose chains the operator stands in; the power stands in none. -/
def level? : BinaryOperator → Option Precedence
  | .logical _ => some .logical
  | .comparison _ | .membership => some .comparison
  | .arithmetic .add | .arithmetic .subtract | .sets _ => some .additive
  | .arithmetic .multiply | .arithmetic .divide | .arithmetic .modulo => some .multiplicative
  | .arithmetic .power => none

end BinaryOperator

/-- How tightly a phrase holds together: the looser ones need parentheses inside the tighter. -/
inductive Tier where
  | chain (level : Precedence)
  | power
  | unary
  | primary
  deriving Repr, DecidableEq

namespace Tier

def rank : Tier → Nat
  | .chain .logical => 0
  | .chain .comparison => 1
  | .chain .additive => 2
  | .chain .multiplicative => 3
  | .power => 4
  | .unary => 5
  | .primary => 6

instance : LE Tier := ⟨fun a b => a.rank ≤ b.rank⟩

instance (a b : Tier) : Decidable (a ≤ b) := inferInstanceAs (Decidable (a.rank ≤ b.rank))

/-- The tier of the operands of a phrase, where it has operands of its own. -/
def next : Tier → Tier
  | .chain .logical => .chain .comparison
  | .chain .comparison => .chain .additive
  | .chain .additive => .chain .multiplicative
  | .chain .multiplicative => .power
  | .power => .unary
  | .unary => .primary
  | .primary => .primary

end Tier

inductive Layout where
  /-- a number by its digits, before and behind the point -/
  | number (x : Number) (whole fraction : List Char)
  | text (quote : Char) (content : List Char)
  | truth (b : Bool)
  | name (spelling : String)
  | call (function : String) (arguments : List Layout)
  /-- something in parentheses -/
  | group (inner : Layout)
  | signed (op : UnaryOperator) (operand : Layout)
  | power (base exponent : Layout)
  | binary (op : BinaryOperator) (left right : Layout)

namespace Layout

mutual

/-- The expression that is written; parentheses are no part of it. -/
def tree : Layout → Expr Unit
  | .number x _ _ => .literal () (.number x)
  | .text _ content => .literal () (.text (String.ofList content))
  | .truth b => .literal () (.boolean b)
  | .name spelling => .reference () spelling
  | .call function arguments => .call () function (trees arguments)
  | .group inner => inner.tree
  | .signed op operand => Expr.unary () op operand.tree
  | .power base exponent => .arithmetic () .power base.tree exponent.tree
  | .binary op left right => Expr.binary () op left.tree right.tree

def trees : List Layout → List (Expr Unit)
  | [] => []
  | l :: ls => l.tree :: trees ls

end

/-- Digits, and a point if digits follow it. -/
def numberToken (whole fraction : List Char) : List Char :=
  if fraction.isEmpty then whole else whole ++ '.' :: fraction

mutual

def tokens : Layout → List (List Char)
  | .number _ whole fraction => [numberToken whole fraction]
  | .text quote content => [quote :: content ++ [quote]]
  | .truth b => [(if b then "true" else "false").toList]
  | .name spelling => [spelling.toList]
  | .call function arguments =>
    [function.toList, ['(']] ++ argumentTokens arguments ++ [[')']]
  | .group inner => [['(']] ++ inner.tokens ++ [[')']]
  | .signed op operand => op.symbol.toList :: operand.tokens
  | .power base exponent => base.tokens ++ ['^'] :: exponent.tokens
  | .binary op left right => left.tokens ++ op.symbol.toList :: right.tokens

def argumentTokens : List Layout → List (List Char)
  | [] => []
  | l :: ls => l.tokens ++ moreTokens ls

/-- The tokens of arguments behind the first one. -/
def moreTokens : List Layout → List (List Char)
  | [] => []
  | l :: ls => [','] :: l.tokens ++ moreTokens ls

end

def tier : Layout → Tier
  | .number _ _ _ | .text _ _ | .truth _ | .name _ | .call _ _ | .group _ => .primary
  | .signed _ _ => .unary
  | .power _ _ => .power
  | .binary op _ _ => (op.level?.map Tier.chain).getD .power

/-- A word that names something: no other word of the language, though it may be `intersect`. -/
def IsName (name : String) : Prop :=
  ∃ c cs, name.toList = c :: cs ∧ Expr.isNameStart c = true ∧
    (∀ d ∈ cs, Expr.isNameChar d = true) ∧ name ∉ Phrase.reserved

/-- At least one digit before the point, and behind it any number of digits. -/
def IsDecimal (whole fraction : List Char) : Prop :=
  whole ≠ [] ∧ (∀ d ∈ whole, d.isDigit = true) ∧ ∀ d ∈ fraction, d.isDigit = true

mutual

/-- Parentheses stand wherever they are needed, and every leaf can be written. -/
def Valid : Layout → Prop
  | .number x whole fraction =>
    IsDecimal whole fraction ∧ Number.decimal? (numberToken whole fraction) = some x
  | .text quote content => Expr.isQuote quote = true ∧ quote ∉ content
  | .truth _ => True
  | .name spelling => IsName spelling
  | .call function arguments => IsName function ∧ AllValid arguments
  | .group inner => inner.Valid
  | .signed _ operand => operand.Valid ∧ .unary ≤ operand.tier
  | .power base exponent =>
    base.Valid ∧ exponent.Valid ∧ .unary ≤ base.tier ∧ .power ≤ exponent.tier
  | .binary op left right =>
    left.Valid ∧ right.Valid ∧
      ∃ level, op.level? = some level ∧ .chain level ≤ left.tier ∧ (Tier.chain level).next ≤ right.tier

def AllValid : List Layout → Prop
  | [] => True
  | l :: ls => l.Valid ∧ AllValid ls

end

/-- The tokens, each behind at least one space, and then the rest. -/
def Behind : List (List Char) → List Char → List Char → Prop
  | [], cs, rest => cs = rest
  | t :: ts, cs, rest =>
    ∃ gap mid, gap ≠ [] ∧ (∀ c ∈ gap, Phrase.isSpace c = true) ∧ cs = gap ++ t ++ mid ∧
      Behind ts mid rest

/-- A text of these tokens with at least one space between any two, and maybe spaces at its ends. -/
def Written : List (List Char) → List Char → Prop
  | [], cs => ∀ c ∈ cs, Phrase.isSpace c = true
  | t :: ts, cs =>
    ∃ front mid back, (∀ c ∈ front, Phrase.isSpace c = true) ∧ cs = front ++ t ++ mid ∧
      Behind ts mid back ∧ ∀ c ∈ back, Phrase.isSpace c = true

end Layout

end Premise
