import Premise.Text.Blank

/-!
What can be wrong with a document as a whole, and with a document that is imported.
-/

namespace Premise

inductive DocumentError where
  | missing
  | tooLarge (elements limit : Nat)
  deriving Repr, DecidableEq

namespace DocumentError

def message : DocumentError → String
  | .missing => "Document tree is null"
  | .tooLarge elements limit =>
    s!"Document has {elements} nodes, exceeding the maximum of {limit}"

def advice : DocumentError → Option String
  | .missing => none
  | .tooLarge .. => some "Split the document and import the parts"

end DocumentError

inductive LoadError where
  | notFound (name : String)
  | unreadable (name reason : String)
  | malformed (name reason : String)
  deriving Repr, DecidableEq

namespace LoadError

def message : LoadError → String
  | .notFound name => s!"Document not found: {name}"
  | .unreadable name reason => s!"Failed to read '{name}': {reason}"
  | .malformed name reason => s!"Failed to parse '{name}': {reason}"

end LoadError

/-- The two stores in which an imported declaration can find its name taken. -/
inductive Store where
  | symbols
  | rules
  deriving Repr, DecidableEq

namespace Store

def heading : Store → String
  | .symbols => "Symbol"
  | .rules => "Rule"

end Store

inductive ImportError where
  | noReference
  | tooDeep (reference : String) (limit : Nat)
  | failed (reference : String) (error : LoadError)
  /-- the document would be imported into itself; the chain ends with it -/
  | cycle (chain : List String)
  | conflict (store : Store) (name : String)
  deriving Repr, DecidableEq

namespace ImportError

def message : ImportError → String
  | .noReference => "Import missing 'src' attribute"
  | .tooDeep reference limit =>
    s!"Import of '{reference}' exceeds the maximum import depth of {limit}"
  | .failed reference error => s!"Failed to import '{reference}': {error.message}"
  | .cycle chain => "Import cycle detected: " ++ Text.joined " -> " chain
  | .conflict store name => s!"{store.heading} conflict: '{name}' is already defined"

def advice : ImportError → Option String
  | .noReference | .tooDeep .. | .failed .. => none
  | .cycle _ => some "Remove one of the imports that close the cycle"
  | .conflict .. => some "Import the document under an alias with as=\"...\""

end ImportError

end Premise
