import Premise.Expr.Phrase
import Premise.Expr.Product

/-!
Reading phrases. From the loosest to the tightest, the levels are logical, comparison, additive and
multiplicative chains, powers, signs, and the primary phrases: calls, literals, names and groups.

A reader looks at a text that remains and yields a phrase with what remains behind it. Where no
operand can start, or neither an operator nor the end of the enclosing phrase follows, reading
stops, and the text that remains from there is the answer. Spaces, tabs and line ends may stand
between all tokens.
-/

namespace Premise.Phrase

/-- Reading that may stop early, with the text where it stopped. -/
abbrev Stopping := Except (List Char)

abbrev PhraseReader := List Char → Stopping (Phrase × List Char)

def isSpace (c : Char) : Bool := c = ' ' || c = '\t' || c = '\r' || c = '\n'

def skip (cs : List Char) : List Char := cs.dropWhile isSpace

/-- The longest run of name characters, and what follows it. -/
def word (cs : List Char) : String × List Char :=
  (String.ofList (cs.takeWhile Expr.isNameChar), cs.dropWhile Expr.isNameChar)

def logicalOperator? : List Char → Option (BinaryOperator × List Char)
  | '<' :: '=' :: '>' :: rest => some (.logical .iff, rest)
  | '&' :: '&' :: rest => some (.logical .and, rest)
  | '|' :: '|' :: rest => some (.logical .or, rest)
  | '=' :: '>' :: rest => some (.logical .implies, rest)
  | _ => none

def comparisonOperator? : List Char → Option (BinaryOperator × List Char)
  | '=' :: '=' :: rest => some (.comparison .equal, rest)
  | '!' :: '=' :: rest => some (.comparison .notEqual, rest)
  | '>' :: '=' :: rest => some (.comparison .greaterOrEqual, rest)
  | '<' :: '=' :: '>' :: _ => none
  | '<' :: '=' :: rest => some (.comparison .lessOrEqual, rest)
  | '>' :: rest => some (.comparison .greater, rest)
  | '<' :: rest => some (.comparison .less, rest)
  | cs =>
    match word cs with
    | ("in", rest) => some (.membership, rest)
    | _ => none

def additiveOperator? : List Char → Option (BinaryOperator × List Char)
  | '+' :: rest => some (.arithmetic .add, rest)
  | '-' :: rest => some (.arithmetic .subtract, rest)
  | cs =>
    match word cs with
    | ("union", rest) => some (.sets .union, rest)
    | ("intersect", rest) => some (.sets .intersect, rest)
    | ("diff", rest) => some (.sets .diff, rest)
    | _ => none

def multiplicativeOperator? : List Char → Option (BinaryOperator × List Char)
  | '*' :: rest => some (.arithmetic .multiply, rest)
  | '/' :: rest => some (.arithmetic .divide, rest)
  | '%' :: rest => some (.arithmetic .modulo, rest)
  | _ => none

/-- The operator of a level that the text starts with. -/
def operator? : Precedence → List Char → Option (BinaryOperator × List Char)
  | .logical => logicalOperator?
  | .comparison => comparisonOperator?
  | .additive => additiveOperator?
  | .multiplicative => multiplicativeOperator?

/-- Words that are no names. The word `intersect` is one: only between two operands it stands for
the operator. -/
def reserved : List String := ["in", "union", "diff", "true", "false"]

/-- Digits, and a point with more digits if they follow it. -/
def readNumber (cs : List Char) : Phrase × List Char :=
  let whole := cs.takeWhile Char.isDigit
  let rest := cs.dropWhile Char.isDigit
  match rest with
  | '.' :: d :: _ =>
    if d.isDigit then
      (.number whole (rest.tail.takeWhile Char.isDigit), rest.tail.dropWhile Char.isDigit)
    else (.number whole [], rest)
  | _ => (.number whole [], rest)

/-- The content up to the next quote, and what follows that. -/
def readQuoted? (quote : Char) (cs : List Char) : Option (Phrase × List Char) :=
  match cs.dropWhile (· != quote) with
  | [] => none
  | _ :: rest => some (.text (String.ofList (cs.takeWhile (· != quote))), rest)

/-- A run of `!` and `-` with spaces between, and the text at which it ends. -/
def signs : List Char → List UnaryOperator × List Char
  | [] => ([], [])
  | c :: cs =>
    if c = '!' then (.not :: (signs cs).1, (signs cs).2)
    else if c = '-' then (.negative :: (signs cs).1, (signs cs).2)
    else if isSpace c then signs cs
    else ([], c :: cs)

/-- The arguments behind the first one, each behind a comma. -/
def readArguments (inner : PhraseReader) :
    Nat → List Char → Stopping (List Phrase × List Char)
  | 0, cs => .error cs
  | steps + 1, cs =>
    match skip cs with
    | ',' :: rest => do
      let (argument, rest) ← inner (skip rest)
      let (arguments, rest) ← readArguments inner steps rest
      .ok (argument :: arguments, rest)
    | ')' :: rest => .ok ([], rest)
    | stop => .error stop

/-- A primary phrase. `inner` reads what stands between parentheses, and `steps` bounds the number
of arguments. -/
def readPrimary (inner : PhraseReader) (steps : Nat) (cs : List Char) :
    Stopping (Phrase × List Char) :=
  match cs with
  | [] => .error []
  | c :: rest =>
    if c = '(' then do
      let (phrase, rest) ← inner (skip rest)
      match skip rest with
      | ')' :: rest => .ok (.group phrase, rest)
      | stop => .error stop
    else if Expr.isQuote c then
      match readQuoted? c rest with
      | some found => .ok found
      | none => .error cs
    else if c.isDigit then .ok (readNumber cs)
    else if Expr.isNameStart c then
      let (spelling, rest) := word cs
      if spelling = "true" then .ok (.truth true, rest)
      else if spelling = "false" then .ok (.truth false, rest)
      else if reserved.contains spelling then .error cs
      else
        match skip rest with
        | '(' :: rest =>
          match skip rest with
          | ')' :: rest => .ok (.call spelling [], rest)
          | start => do
            let (argument, rest) ← inner start
            let (arguments, rest) ← readArguments inner steps rest
            .ok (.call spelling (argument :: arguments), rest)
        | _ => .ok (.name spelling, rest)
    else .error cs

/-- A primary phrase behind any number of signs. -/
def readSigned (inner : PhraseReader) (steps : Nat) (cs : List Char) :
    Stopping (Phrase × List Char) := do
  let (ops, start) := signs cs
  let (operand, rest) ← readPrimary inner steps start
  .ok (ops.foldr .signed operand, rest)

/-- Powers; their right operand is a power again. -/
def readPower (inner : PhraseReader) : Nat → List Char → Stopping (Phrase × List Char)
  | 0, cs => .error cs
  | steps + 1, cs => do
    let (base, rest) ← readSigned inner steps cs
    match skip rest with
    | '^' :: rest => do
      let (exponent, rest) ← readPower inner steps (skip rest)
      .ok (.power base exponent, rest)
    | _ => .ok (base, rest)

/-- The operators and operands behind the first operand of a chain. -/
def readLinks (level : Precedence) (operand : PhraseReader) :
    Nat → List Char → Stopping (List (BinaryOperator × Phrase) × List Char)
  | 0, cs => .error cs
  | steps + 1, cs =>
    match operator? level (skip cs) with
    | none => .ok ([], cs)
    | some (op, rest) => do
      let (right, rest) ← operand (skip rest)
      let (links, rest) ← readLinks level operand steps rest
      .ok ((op, right) :: links, rest)

/-- A chain of one level, or its only operand. -/
def readChain (level : Precedence) (steps : Nat) (operand : PhraseReader)
    (cs : List Char) : Stopping (Phrase × List Char) := do
  let (first, rest) ← operand cs
  let (links, rest) ← readLinks level operand steps rest
  .ok (if links.isEmpty then first else .chain first links, rest)

/-- A whole expression. Each step goes into one more pair of parentheses, so as many steps as there
are characters suffice, and one more. -/
def readExpression : Nat → List Char → Stopping (Phrase × List Char)
  | 0, cs => .error cs
  | steps + 1, cs =>
    let primary := readPower (readExpression steps) (steps + 1)
    let multiplicative := readChain .multiplicative (steps + 1) primary
    let additive := readChain .additive (steps + 1) multiplicative
    let comparison := readChain .comparison (steps + 1) additive
    readChain .logical (steps + 1) comparison cs

/-- Reads a text that is one phrase; an error holds the text from where reading stopped. -/
def read (cs : List Char) : Except (List Char) Phrase := do
  let (phrase, rest) ← readExpression (cs.length + 1) (skip cs)
  match skip rest with
  | [] => .ok phrase
  | stop => .error stop

end Premise.Phrase
