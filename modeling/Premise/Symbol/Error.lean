import Premise.Shape

/-!
What can be wrong with the declaration of a symbol, or with a value that overrides one.
-/

namespace Premise

inductive SymbolError where
  | unnamed (tag : String)
  | duplicate (name : String)
  | unknownKind (tag : String)
  | invalidShape (written name : String)
  /-- the value has another shape than the declared one -/
  | mismatch (name : String) (declared : Shape) (found : String)
  /-- the symbol referred to is declared with another shape -/
  | referenceMismatch (name : String) (declared : Shape) (reference : String) (found : Shape)
  | invalidNumber (written name : String)
  | unresolved (reference name : String)
  | malformedEdge (written name : String)
  | malformedProperty (written name : String)
  deriving Repr, DecidableEq

namespace SymbolError

def message : SymbolError → String
  | .unnamed tag => s!"Symbol declaration missing 'name' attribute on <{tag}>"
  | .duplicate name => s!"Duplicate symbol '{name}'"
  | .unknownKind tag => s!"Unknown symbol type '{tag}'"
  | .invalidShape written name => s!"Invalid type '{written}' for symbol '{name}'"
  | .mismatch name declared found =>
    s!"Type mismatch: symbol '{name}' is declared {declared.name} but its value is {found}"
  | .referenceMismatch name declared reference found =>
    s!"Reference type mismatch: '{name}' is declared {declared.name} but '{reference}' is {found.name}"
  | .invalidNumber written name => s!"Invalid number '{written}' for symbol '{name}'"
  | .unresolved reference name => s!"Unresolved reference '{reference}' in symbol '{name}'"
  | .malformedEdge written name => s!"Malformed edge '{written}' in graph '{name}'"
  | .malformedProperty written name => s!"Malformed property '{written}' in entity '{name}'"

def advice : SymbolError → Option String
  | .unnamed _ | .mismatch .. | .referenceMismatch .. | .invalidNumber .. => none
  | .duplicate _ => some "Rename one of the declarations; the first one is kept"
  | .unknownKind _ => some "Use one of: var, const, set, graph, entity"
  | .invalidShape .. =>
    some "Use one of: number, string, boolean, list, set, graph, object, any"
  | .unresolved .. =>
    some "Declare the referenced symbol first, or quote the value to use it as text"
  | .malformedEdge .. => some "Write edges as 'from->to' or 'from->relation->to'"
  | .malformedProperty .. => some "Write properties as 'key=value'"

end SymbolError

/-- What can be wrong with a value that overrides a symbol of a declared shape. -/
inductive OverrideError where
  | invalidNumber (written : String)
  | invalidBoolean (written : String)
  deriving Repr, DecidableEq

namespace OverrideError

def message : OverrideError → String
  | .invalidNumber written => s!"Invalid number '{written}'"
  | .invalidBoolean written => s!"Invalid boolean '{written}'"

end OverrideError

end Premise
