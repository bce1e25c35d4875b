import Premise.Report.Json
import Premise.Report.Text

/-!
The command line: what its arguments ask for, and what comes of it.

Arguments are taken from left to right. Options that hold for every command may stand before or
behind it; what stands behind counts.
-/

namespace Premise.Command

inductive UsageError where
  | unexpected (argument : String)
  | repeated (option : String)
  | missingValue (option : String)
  | invalidValue (option value : String)
  | missingCommand
  | missingFile
  deriving Repr, DecidableEq

namespace UsageError

def message : UsageError → String
  | .unexpected argument => s!"unexpected argument '{argument}'"
  | .repeated option => s!"the argument '{option}' cannot be used more than once"
  | .missingValue option => s!"a value is required for '{option}'"
  | .invalidValue option value => s!"invalid value '{value}' for '{option}'"
  | .missingCommand => "a command is required: run, check or symbols"
  | .missingFile => "a file is required"

end UsageError

inductive Stop where
  | usage (e : UsageError)
  | help
  | version
  deriving Repr, DecidableEq

/-- What is given, by the full names of the options. -/
structure Given where
  flags : List String := []
  numbers : List (String × Nat) := []
  /-- arguments that are no options, in order -/
  words : List String := []
  deriving Repr, DecidableEq

/-- Where an argument stands: before the command or behind it. -/
structure Stage where
  flags : List String
  /-- options with a number -/
  valued : List String
  /-- whether `--version` is known -/
  knowsVersion : Bool
  /-- how many words are taken -/
  words : Nat

def Given.addFlag (g : Given) (option : String) : Except Stop Given :=
  if g.flags.contains option then .error (.usage (.repeated option))
  else .ok { g with flags := g.flags ++ [option] }

def numberBound : Nat := Nat.pow 2 64

/-- Reads a number with an optional plus sign. -/
def number? (s : String) : Option Nat :=
  let digits := match s.toList with
    | '+' :: cs => cs
    | cs => cs
  let n := Number.digitsValue digits
  if !digits.isEmpty && digits.all Char.isDigit && n < numberBound then some n else none

def Given.addNumber (g : Given) (option value : String) : Except Stop Given :=
  match number? value with
  | none => .error (.usage (.invalidValue option value))
  | some n =>
    if (g.numbers.lookup option).isSome then .error (.usage (.repeated option))
    else .ok { g with numbers := g.numbers ++ [(option, n)] }

/-- Takes flags that are written as letters behind one dash. -/
def addLetters (stage : Stage) (g : Given) : List Char → Except Stop Given
  | [] => .ok g
  | c :: cs =>
    if c = 'h' then .error .help
    else if c = 'V' && stage.knowsVersion then .error .version
    else if c = 'v' then do
      let g ← g.addFlag "--verbose"
      addLetters stage g cs
    else .error (.usage (.unexpected (String.ofList ['-', c])))

/-- An option apart from the value that is written behind an equals sign. -/
def splitOption (argument : String) : String × Option String :=
  match Text.splitAtFirst '=' argument.toList with
  | some (option, value) => (String.ofList option, some (String.ofList value))
  | none => (argument, none)

/-- Takes a word; more of them than the stage takes are too many. -/
def Given.addWord (stage : Stage) (g : Given) (word : String) : Except Stop Given :=
  if g.words.length < stage.words && !word.isEmpty then .ok { g with words := g.words ++ [word] }
  else .error (.usage (.unexpected word))

def isOption (argument : String) : Bool :=
  argument.toList.head? = some '-' && argument != "-"

/-- Takes the arguments of a stage. Behind `--` they all are words. Where no word is taken, the
first one ends the stage. -/
def readStage (stage : Stage) (g : Given) : List String → Except Stop (Given × List String)
  | [] => .ok (g, [])
  | "--" :: rest => do
    let g ← rest.foldlM (Given.addWord stage) g
    .ok (g, [])
  | argument :: rest =>
    if !isOption argument then
      if stage.words = 0 then .ok (g, argument :: rest)
      else do
        let g ← g.addWord stage argument
        readStage stage g rest
    else if !"--".toList.isPrefixOf argument.toList then do
      let g ← addLetters stage g (argument.toList.drop 1)
      readStage stage g rest
    else
      let (option, value) := splitOption argument
      if stage.valued.contains option then
        match value, rest with
        | some value, rest => do
          let g ← g.addNumber option value
          readStage stage g rest
        | none, next :: rest =>
          if isOption next then .error (.usage (.missingValue option))
          else do
            let g ← g.addNumber option next
            readStage stage g rest
        | none, [] => .error (.usage (.missingValue option))
      else if value.isSome then .error (.usage (.unexpected argument))
      else if option = "--help" then .error .help
      else if option = "--version" && stage.knowsVersion then .error .version
      else if stage.flags.contains option then do
        let g ← g.addFlag option
        readStage stage g rest
      else .error (.usage (.unexpected argument))

inductive Action where
  | run (json trace strict : Bool)
  | check
  | symbols
  deriving Repr, DecidableEq

structure Invocation where
  action : Action
  file : String
  verbose : Bool
  maxDepth : Option Nat
  maxImportDepth : Option Nat
  deriving Repr, DecidableEq

def numberOptions : List String := ["--max-depth", "--max-import-depth"]

def beforeCommand : Stage := ⟨["--verbose"], numberOptions, true, 0⟩

def behindRun : Stage := ⟨["--verbose", "--json", "--trace", "--strict"], numberOptions, false, 1⟩

def behindOther : Stage := ⟨["--verbose"], numberOptions, false, 1⟩

/-- Puts together what stood before the command and behind it. -/
def invocation (action : Action) (before behind : Given) : Except Stop Invocation :=
  match behind.words with
  | [] => .error (.usage .missingFile)
  | file :: _ => .ok
    { action, file
      verbose := before.flags.contains "--verbose" || behind.flags.contains "--verbose"
      maxDepth := (behind.numbers.lookup "--max-depth").or (before.numbers.lookup "--max-depth")
      maxImportDepth := (behind.numbers.lookup "--max-import-depth").or
        (before.numbers.lookup "--max-import-depth") }

def parse (arguments : List String) : Except Stop Invocation := do
  let (before, rest) ← readStage beforeCommand {} arguments
  match rest with
  | [] => .error (.usage .missingCommand)
  | "run" :: rest => do
    let (behind, _) ← readStage behindRun {} rest
    invocation (.run (behind.flags.contains "--json") (behind.flags.contains "--trace")
      (behind.flags.contains "--strict")) before behind
  | "check" :: rest => do
    let (behind, _) ← readStage behindOther {} rest
    invocation .check before behind
  | "symbols" :: rest => do
    let (behind, _) ← readStage behindOther {} rest
    invocation .symbols before behind
  | "help" :: _ => .error .help
  | word :: _ => .error (.usage (.unexpected word))

structure Output where
  exit : Nat := 0
  stdout : String := ""
  stderr : String := ""
  deriving Repr, DecidableEq

/-- The exit code of usage errors, and of documents with faults where these count. -/
def exitFaulty : Nat := 2

/-- The exit code when a file cannot be had. -/
def exitUnreadable : Nat := 1

def usage : String :=
  "Usage: tenet [OPTIONS] <COMMAND>\n\n" ++
  "Commands:\n" ++
  "  run      Evaluate a document and display results\n" ++
  "  check    Resolve and compile a document without evaluating it\n" ++
  "  symbols  Show the resolved symbol table\n"

def stopped : Stop → Output
  | .help => { stdout := usage }
  | .version => { stdout := "tenet 0.3.0\n" }
  | .usage e => { exit := exitFaulty, stderr := s!"error: {e.message}\n\n" ++ usage }

def Invocation.limits (i : Invocation) : Limits :=
  let standard : Limits := {}
  { standard with
    evaluation := i.maxDepth.getD standard.evaluation
    imports := i.maxImportDepth.getD standard.imports }

/-- Carries out a command on the document in its file. -/
def Invocation.perform (i : Invocation) (library : Library) (document : Element) : Output :=
  let engine : Engine := { limits := i.limits, library }
  match i.action with
  | .run json trace strict =>
    let e := engine.evaluate (some document) (some i.file)
    { exit := if strict && !e.faults.isEmpty then exitFaulty else 0
      stdout := if json then e.json.pretty ++ "\n" else Report.evaluation e trace }
  | .check =>
    let linked := engine.link (some document) (some i.file)
    if linked.faults.isEmpty then
      { stdout :=
          s!"{i.file}: ok ({linked.symbols.size} symbols, {linked.rules.size} rules)\n" }
    else { exit := exitFaulty, stdout := Report.faults linked.faults }
  | .symbols =>
    let linked := engine.link (some document) (some i.file)
    { stdout := Report.symbols linked.symbols
      stderr := if linked.faults.isEmpty then "" else Report.faults linked.faults }

/-- What comes of a file that cannot be read, or holds no document. -/
def unreadable (e : LoadError) : Output :=
  { exit := exitUnreadable, stderr := s!"Error: {e.message}\n" }

end Premise.Command
