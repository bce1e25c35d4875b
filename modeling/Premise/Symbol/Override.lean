import Premise.Literal
import Premise.Symbol.Error

/-!
Values that override symbols. They are read like declared values, but a name that nothing is known
by stands for itself.
-/

namespace Premise.Symbol

/-- Text that is no literal and no known name, where a shape is expected. -/
def overrideText (expected : Shape) (content : String) : Except OverrideError Value :=
  match expected with
  | .number => .error (.invalidNumber content)
  | .boolean => .error (.invalidBoolean content)
  | _ => .ok (.text content)

def override (expected : Shape) (lookup? : String → Option Value) (raw : String) :
    Except OverrideError Value :=
  match Literal.classify raw with
  | .quoted content => .ok (.text content)
  | .boolean b => .ok (.boolean b)
  | .number x => .ok (.number x)
  | .reference name =>
    match lookup? name with
    | some v => .ok v
    | none => overrideText expected name
  | .bare content => overrideText expected content

end Premise.Symbol
