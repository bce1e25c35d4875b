/-!
What rules are declared as.
-/

namespace Premise

inductive RuleKind where
  | rule
  | function
  /-- checked on its own before a document is evaluated -/
  | constraint
  deriving Repr, DecidableEq

namespace RuleKind

def tag : RuleKind → String
  | .rule => "rule"
  | .function => "function"
  | .constraint => "constraint"

/-- The word at the start of a sentence. -/
def heading : RuleKind → String
  | .rule => "Rule"
  | .function => "Function"
  | .constraint => "Constraint"

def all : List RuleKind := [.rule, .function, .constraint]

def ofTag? (tag : String) : Option RuleKind := all.find? fun k => k.tag = tag

theorem ofTag?_tag (k : RuleKind) : ofTag? k.tag = some k := by
  cases k <;> decide

end RuleKind

end Premise
