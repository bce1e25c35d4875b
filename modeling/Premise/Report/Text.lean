import Premise.Engine
import Premise.Report.Table

/-!
Reports for people: a table of results, the faults, and the trace; or a table of symbols.
-/

namespace Premise.Report

def faultText (f : Fault) : String :=
  s!"  error[{f.kind.name}]: {f.message}\n" ++
    ((f.line.map fun n => s!"    --> line {n}\n").getD "") ++
    ((f.suggestion.map fun s => s!"    help: {s}\n").getD "")

/-- How many faults there are, and a block for each. -/
def faults (fs : List Fault) : String :=
  let plural := if fs.length = 1 then "" else "s"
  s!"{fs.length} error{plural}:\n" ++ Text.joined "" (fs.map faultText)

def results (rs : Table Value) : String :=
  if rs.isEmpty then "No results\n"
  else table ["Result", "Value"] (rs.toList.map fun r => [r.1, r.2.display]) ++ "\n"

def traceLines : List String → String
  | [] => ""
  | [line] => "└─ " ++ line ++ "\n"
  | line :: rest => "├─ " ++ line ++ "\n" ++ traceLines rest

def trace (lines : List String) : String := "Trace:\n" ++ traceLines lines

/-- The results, then the faults if there are any, then the trace if it is wanted. -/
def evaluation (e : Evaluation) (withTrace : Bool) : String :=
  results e.results ++
    (if e.faults.isEmpty then "" else "\n" ++ faults e.faults) ++
    (if withTrace && !e.trace.isEmpty then "\n" ++ trace e.trace else "")

def symbols (t : SymbolTable) : String :=
  if t.isEmpty then "No symbols\n"
  else
    table ["Symbol", "Kind", "Type", "Value"]
      (t.toList.map fun (name, s) => [name, s.kind.tag, s.shape.name, s.value.display]) ++ "\n"

end Premise.Report
