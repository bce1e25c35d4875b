import Premise.Engine
import Premise.Json.Printer
import Premise.Value.Json

/-!
Reports for programs: faults and evaluations in JSON form.
-/

namespace Premise

namespace Fault

def json (f : Fault) : Json :=
  .objectOf
    [("type", some (.text f.kind.name)),
     ("message", some (.text f.message)),
     ("suggestedFix", f.suggestion.map .text),
     ("line", f.line.map .natural)]

end Fault

namespace Evaluation

/-- The results by name, as JSON shows values. -/
def resultsJson (e : Evaluation) : Json := .object (e.results.toList.map fun r => (r.1, r.2.json))

def json (e : Evaluation) : Json :=
  .object
    [("results", e.resultsJson),
     ("errors", .array (e.faults.map Fault.json)),
     ("trace", .array (e.trace.map .text))]

end Evaluation

end Premise
