import Premise.Element
import Premise.Symbol
import Premise.Text.Quoted

/-!
Domains: tags beyond the built-in ones, each with a handler of its own. A handler is a function of
the element and of the symbols.
-/

namespace Premise.Domain

/-- A handler yields a result, an error, both or neither. -/
structure Outcome where
  result : Option Value
  error : Option String

abbrev Handler := Element → SymbolTable → Outcome

namespace Handler

/-- Yields the same for every element. -/
def constant (outcome : Outcome) : Handler := fun _ _ => outcome

/-- Yields the value of the symbol that an attribute of the element names. -/
def symbolNamedBy (key : String) : Handler := fun e symbols =>
  let name := e.attribute? key
  match name.bind symbols.get? with
  | some s => ⟨some s.value, none⟩
  | none => ⟨none, some ("no symbol for '" ++ name.getD "?" ++ "'")⟩

end Handler

end Domain

abbrev Domains := Table Domain.Handler

namespace Domains

/-- A one-line summary that lists the tags. -/
def summary (d : Domains) : String :=
  "DomainRegistry \x7b tags: [" ++ Text.joined ", " (d.names.map Text.quoted) ++ "] \x7d"

end Domains

end Premise
