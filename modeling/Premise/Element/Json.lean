import Premise.Element
import Premise.Json.Printer
import Premise.Json.Reader
import Premise.Number.Reading

/-!
Documents in JSON form. A member is written only for what an element has; on reading, unknown
members are passed over, a member given twice is refused, and of attributes given twice the last
counts. Objects and arrays may nest 127 levels deep where the document has them.
-/

namespace Premise.Element

mutual

def json : Element → Json
  | ⟨tag, attributes, children, text, line⟩ =>
    .objectOf
      [("tag", some (.text tag)),
       ("attributes",
        if attributes.isEmpty then none
        else some (.object (attributes.toList.map fun a => (a.1, .text a.2)))),
       ("children", if children.isEmpty then none else some (.array (jsonAll children))),
       ("text", text.map .text),
       ("line", line.map .natural)]

def jsonAll : List Element → List Json
  | [] => []
  | e :: es => json e :: jsonAll es

end

/-- How deep objects and arrays may nest in a document. -/
def nestingLimit : Nat := 127

def lineBound : Nat := Nat.pow 2 64

def lineOf? (written : String) : Option Nat :=
  let n := Number.digitsValue written.toList
  if written.toList.all Char.isDigit && n < lineBound then some n else none

def attributesOf? : Json → Option (Table String)
  | .object members =>
    members.foldlM
      (fun t m =>
        match m.2 with
        | .text v => some (t.insert m.1 v)
        | _ => none)
      ∅
  | _ => none

def tagOf? : Json → Option String
  | .text s => some s
  | _ => none

/-- Reads a member that may be null: nothing at all when it is no text. -/
def textOf? : Json → Option (Option String)
  | .null => some none
  | .text s => some (some s)
  | _ => none

def lineMember? : Json → Option (Option Nat)
  | .null => some none
  | .number written => (lineOf? written).map some
  | _ => none

/-- The value of a member that is given at most once. -/
def single? (members : List (String × Json)) (name : String) : Option (Option Json) :=
  match members.filter fun m => m.1 = name with
  | [] => some none
  | [m] => some (some m.2)
  | _ => none

/-- The members of an element by their place or name: tag, attributes, children, text, line. -/
structure Members where
  tag : Json
  attributes : Option Json
  children : Option Json
  text : Option Json
  line : Option Json

/-- An element is an object with named members or an array with the members in order. -/
def members? : Json → Option Members
  | .object ms => do
    let tag ← (← single? ms "tag")
    some ⟨tag, ← single? ms "attributes", ← single? ms "children", ← single? ms "text",
      ← single? ms "line"⟩
  | .array (tag :: rest) =>
    if rest.length ≤ 4 then some ⟨tag, rest[0]?, rest[1]?, rest[2]?, rest[3]?⟩ else none
  | _ => none

/-- Reads a member, or takes a default when it is not there. -/
def orDefault {α : Type} (default : α) (read? : Json → Option α) : Option Json → Option α
  | none => some default
  | some v => read? v

/-- Reads an element; `levels` more objects and arrays may open, its own included. -/
def ofJson? : Nat → Json → Option Element
  | 0, _ => none
  | 1, v => do
    let ms ← members? v
    let tag ← tagOf? ms.tag
    if ms.attributes.isSome || ms.children.isSome then none
    let text ← orDefault none textOf? ms.text
    let line ← orDefault none lineMember? ms.line
    some ⟨tag, ∅, [], text, line⟩
  | levels + 2, v => do
    let ms ← members? v
    let tag ← tagOf? ms.tag
    let attributes ← orDefault ∅ attributesOf? ms.attributes
    let children ← match ms.children with
      | none => some []
      | some (.array items) => items.mapM (ofJson? levels)
      | some _ => none
    let text ← orDefault none textOf? ms.text
    let line ← orDefault none lineMember? ms.line
    some ⟨tag, attributes, children, text, line⟩

def read? (s : String) : Option Element := (Json.read? s).bind (ofJson? nestingLimit)

/-- The JSON text of a document, on one line. -/
def written (e : Element) : String := e.json.compact

end Premise.Element
