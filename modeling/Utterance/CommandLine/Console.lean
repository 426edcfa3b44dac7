import Utterance.Outcome
import Utterance.Storage.View
import Utterance.Trace

/-!
# The console

What a command reads and writes: the files, the standard input, output and error, and the log. Log
lines go to the output and, if there is one, to the end of the log file.
-/

namespace Utterance.CommandLine

/-- The log of a run. -/
structure Log where
  /-- The lowest level that is written. -/
  level : Level := .warning
  layout : LineLayout := .plain
  /-- The place of the log file, if there is one. -/
  file : Option (List String) := none

/-- The times that a run shows. -/
structure Times where
  /-- The time of a log line. -/
  line : String
  /-- The time of the start of the run. -/
  start : String
  /-- The identifier and the time of a trace. -/
  stamp : Stamp

/-- The surroundings of a run. -/
structure Console where
  files : Files
  /-- What stands on the standard input. -/
  input : String
  times : Times
  out : String := ""
  err : String := ""
  log : Log := {}

/-- Why a run ends before the end of its command. -/
inductive Stop where
  | exit (code : Nat)
  | fault (f : Fault)

/-- A part of a run. -/
abbrev Shell := EStateM Stop Console

namespace Shell

/-- Writes a line to the output. -/
def print (line : String) : Shell Unit := modify fun c => { c with out := c.out ++ line ++ "\n" }

/-- Writes lines to the output. -/
def printAll (lines : List String) : Shell Unit := lines.forM print

/-- Writes a line to the error output and ends the run. -/
def fail {α : Type} (message : String) : Shell α := do
  modify fun c => { c with err := c.err ++ "ERROR: " ++ message ++ "\n" }
  throw (.exit 1)

/-- The text of the entries that are urgent enough for the log. -/
def logText (c : Console) (notes : Journal) : String :=
  String.join ((notes.atLeast c.log.level).map fun e => e.line c.log.layout c.times.line ++ "\n")

/-- The files as an operation finds them that writes into the log. -/
def viewOf (c : Console) : Files.View :=
  match c.log.file with
  | none => c.files
  | some place => .logging c.files place (logText c)

/-- The files as the next operation finds them. -/
def view : Shell Files.View := return viewOf (← get)

/-- Writes entries into the log. -/
def write (notes : Journal) : Shell Unit :=
  modify fun c => { c with out := c.out ++ logText c notes, files := (viewOf c).after notes }

/-- The value of a result; a fault ends the run. -/
def demand {α : Type} : Except Fault α → Shell α
  | .ok a => pure a
  | .error e => throw (.fault e)

/-- The value of a result; a file that cannot be used is reported. -/
def demandFile {α : Type} : Except Fault α → Shell α
  | .ok a => pure a
  | .error (.file e) => fail e.message
  | .error e => throw (.fault e)

/-- Writes the notes of an operation and goes on with its state and result. -/
def settle {σ α : Type} (o : Outcome σ α) : Shell (σ × Except Fault α) := do
  write o.notes
  return (o.state, o.result)

/-- Performs an operation on the files and goes on with its result. -/
def onFiles {α : Type} (op : Files → Outcome Files α) : Shell (Except Fault α) := do
  let o := op (← get).files
  modify fun c => { c with files := o.state }
  write o.notes
  return o.result

/-- The next line of the input. -/
def readLine : Shell String := do
  let c ← get
  if c.input.isEmpty then throw (.fault .endOfInput)
  else
    let (line, rest) := Text.cutAt '\n' c.input.toList
    set { c with input := String.ofList (rest.getD []) }
    return String.ofList line

/-- The route of a log file, which is made absolute first and rid of every `..`. -/
def logRoute (cwd : List String) (path : String) : Route :=
  let p := Path.ofString path
  .ofPath ⟨if p.root.isEmpty then "/" else p.root, Path.fromRoot cwd p.root p.parts⟩

/-- Opens the log. A detailed one takes entries of every level. -/
def openLog (path : Option String) (level : Level) (detailed : Bool) : Shell Unit := do
  let cwd := (← get).files.cwd
  let file := (path.filter (!·.isEmpty)).map (logRoute cwd)
  match file with
  | none => pure ()
  | some route =>
    let files ← demand ((← get).files.append route "")
    modify fun c => { c with files }
  let log : Log :=
    { level := if detailed then .debug else level
      layout := if detailed then .detailed else .plain
      file := file.map (·.resolve cwd) }
  modify fun c => { c with log }
  write (Journal.opening (← get).times.start detailed)

end Shell

end Utterance.CommandLine
