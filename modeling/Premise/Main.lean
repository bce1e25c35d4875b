import Premise.Command
import Premise.Element.Json
import Premise.Library.Path
import Premise.Link

/-!
The program: reads the files that the arguments and the imports name, and prints what the command
leaves behind.
-/

namespace Premise.Main

def readDocument (path : String) : IO (Except LoadError Loaded) := do
  let place ← (IO.FS.realPath path).toBaseIO
  match place with
  | .error _ => return .error (.notFound path)
  | .ok place =>
    let content ← (IO.FS.readFile path).toBaseIO
    match content with
    | .error e => return .error (.unreadable path (toString e))
    | .ok content =>
      match Element.read? content with
      | none => return .error (.malformed path "not a document tree")
      | some root => return .ok ⟨place.toString, root⟩

/-- Reads the documents that those of the frontier import, and so on for as many rounds. -/
def gather : Nat → List Library.Answer → List Loaded → IO (List Library.Answer)
  | 0, answers, _ => return answers
  | _, answers, [] => return answers
  | rounds + 1, answers, frontier => do
    let mut answers := answers
    let mut next : List Loaded := []
    for document in frontier do
      for reference in (document.root.findAll Link.importTag).filterMap Link.reference? do
        let loaded ← readDocument (Path.resolve none reference (some document.id))
        answers := ⟨reference, some document.id, loaded⟩ :: answers
        if let .ok found := loaded then
          let known := answers.any fun a => a.importer = some found.id
          if !known && !(next.any fun l => l.id = found.id) then next := found :: next
    gather rounds answers next

def emit (o : Command.Output) : IO UInt32 := do
  (← IO.getStdout).putStr o.stdout
  (← IO.getStderr).putStr o.stderr
  return UInt32.ofNat o.exit

def run (arguments : List String) : IO UInt32 := do
  match Command.parse arguments with
  | .error stop => emit (Command.stopped stop)
  | .ok i =>
    match ← readDocument i.file with
    | .error e => emit (Command.unreadable e)
    | .ok document =>
      let answers ← gather (i.limits.imports + 1) [] [document]
      let identify := fun reference => if reference = i.file then document.id else reference
      emit (i.perform (Library.ofAnswers answers identify) document.root)

end Premise.Main

def main (arguments : List String) : IO UInt32 := Premise.Main.run arguments
