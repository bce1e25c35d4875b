import Premise.Expr.Build
import Premise.Expr.Nesting
import Premise.Expr.Numbering
import Premise.Expr.Reader

/-!
Expressions from their text: products are written out, texts that nest too deep are turned away,
the phrase is read, and its tree is built and numbered.
-/

namespace Premise.Expr

def isSupported (c : Char) : Bool :=
  c.isAlphanum || Text.isBlank c || "_.,()\"'&|!=<>+-*/%^".toList.contains c

/-- The column of a place in a text, counted from 1 behind the last line feed before it. -/
def columnAfter (before : List Char) : Nat := (before.reverse.takeWhile (· != '\n')).length + 1

def stoppedAt (source rest : List Char) : ParseError :=
  let shown := String.ofList (Text.trimChars source)
  let column := columnAfter (source.take (source.length - rest.length))
  match rest with
  | [] => .unexpectedEnd shown
  | c :: _ =>
    if isSupported c then
      let token := Text.firstWord rest
      .unexpected (String.ofList (if token.isEmpty then rest else token)) column shown
    else .unsupported c column shown

/-- Parses the text of an expression. The column of an error counts in the text with its products
written out. -/
def parse (names : Name.Reading) (limit : Nat) (line : Option Nat) (text : String) :
    Except ParseError (Expr Mark) := do
  let source := (expandProducts text).toList
  if source.all Text.isBlank then .error .empty
  else
    let levels := estimateNesting source
    if levels > limit then .error (.tooDeep levels limit)
    else
      match Phrase.read source with
      | .error rest => .error (stoppedAt source rest)
      | .ok phrase =>
        let tree ← ofPhrase names { limit } phrase
        .ok (tree.numbered line)

end Premise.Expr
