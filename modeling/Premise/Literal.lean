import Premise.Number.Reading
import Premise.Text.Blank
import Premise.Text.Word

/-!
Literals in attributes: quoted text, a boolean, a number, a name, or bare text.
-/

namespace Premise

inductive Literal where
  /-- text that stood in matching quotes -/
  | quoted (content : String)
  | boolean (b : Bool)
  | number (x : Number)
  /-- a name, such as `threshold` or `config.limit` -/
  | reference (name : String)
  /-- anything else -/
  | bare (content : String)

namespace Literal

/-- A letter or underscore, then word characters and points. -/
def isIdentifier (s : String) : Bool :=
  match s.toList with
  | [] => false
  | c :: cs => (c.isAlpha || c = '_') && cs.all fun c => Text.isWordChar c || c = '.'

/-- What stands between matching quotes, single or double. -/
def unquote? (s : String) : Option String :=
  match s.toList with
  | q :: c :: cs =>
    if (q = '"' || q = '\'') && (c :: cs).getLast? = some q then
      some (String.ofList (c :: cs).dropLast)
    else none
  | _ => none

/-- The number that a text is, blanks around it left aside. -/
def number? (s : String) : Option Number := Number.decimal? (Text.trimChars s.toList)

def classifyTrimmed (s : String) : Literal :=
  match unquote? s with
  | some content => .quoted content
  | none =>
    if s = "true" then .boolean true
    else if s = "false" then .boolean false
    else
      match Number.decimal? s.toList with
      | some x => .number x
      | none => if isIdentifier s then .reference s else .bare s

/-- What a text in an attribute is, blanks around it left aside. -/
def classify (s : String) : Literal := classifyTrimmed (Text.trim s)

end Literal

end Premise
