import Utterance.Attention
import Utterance.CommandLine.Switch

/-!
# Requests

What the command line asks for: a command with its own switches, and the switches before it that hold
for all commands.
-/

namespace Utterance.CommandLine

/-! ## Commands -/

/-- How a sentence is to be interpreted and shown. -/
structure Parsing where
  sentence : Option String := none
  /-- A file whose lines are interpreted instead. -/
  file : Option String := none
  json : Bool := false
  tree : Bool := false
  confidence : Option String := none
  asleep : Bool := false

/-- A file or rule, and a file to write to. -/
structure Job where
  subject : String := ""
  out : Option String := none

/-- A command. -/
inductive Command where
  | loadGrammar (path : String) (listing : Bool)
  /-- Lets a rule start a sentence, or keeps it from doing so. -/
  | setRule (on : Bool) (job : Job)
  | parse (p : Parsing)
  | dumpRules (path : String)
  | words (path : String)
  | orphans (out : Option String)
  | harvest (job : Job)
  | check (job : Job)
  | invert (job : Job) (irregulars : Option String)

/-- What the command line asks for. -/
structure Request where
  /-- The grammar files; none where a path is withheld. -/
  grammars : List (Option String) := []
  top : Option String := none
  robotName : Option String := none
  /-- The attention mode; none if it is withheld. -/
  attention : Option AttentionMode := some .always
  closing : Bool := false
  substitute : Bool := false
  logFile : Option String := none
  verbose : Bool := false
  debug : Bool := false
  command : Option Command := none

/-- The paths that a job names. -/
def Job.paths (j : Job) : List String := j.subject :: j.out.toList

/-- The paths that a command names. -/
def Command.paths : Command → List String
  | .loadGrammar path _ => [path]
  | .setRule _ job => job.out.toList
  | .parse p => p.file.toList
  | .dumpRules path => [path]
  | .words path => [path]
  | .orphans out => out.toList
  | .harvest job => job.paths
  | .check job => job.paths
  | .invert job irregulars => job.paths ++ irregulars.toList

/-- The paths that a request names. -/
def Request.paths (r : Request) : List String :=
  r.grammars.reduceOption ++ r.logFile.toList ++ (r.command.map Command.paths).getD []

/-! ## Forms -/

/-- A switch that sets something. -/
def flag {σ : Type} (names : List String) (f : σ → σ) : Switch σ := ⟨names, .set f⟩

/-- A switch that takes any value. -/
def setting {σ : Type} (names : List String) (f : Option String → σ → σ) : Switch σ :=
  ⟨names, .value fun v st => some (f v st)⟩

/-- A switch that takes one of the given values. -/
def choice {α σ : Type} (names : List String) (among : List (String × α)) (f : Option α → σ → σ) :
    Switch σ :=
  ⟨names, .value fun
    | none, st => some (f none st)
    | some v, st => (among.lookup v).map fun a => f (some a) st⟩

/-- The switch that names a file to write to. -/
def outSwitch : Switch Job := setting ["--out"] fun v j => { j with out := v }

/-- The form of a command with a subject and a file to write to. -/
def jobForm : Form Job :=
  { switches := [outSwitch], words := .single fun w j => { j with subject := w } }

/-- The form of a command with a subject only. -/
def subjectForm : Form Job :=
  { switches := [], words := .single fun w j => { j with subject := w } }

/-- The form of a command with a file to write to only. -/
def outForm : Form Job := { switches := [outSwitch] }

/-- The form of loading a grammar. -/
def loadForm : Form (String × Bool) :=
  { switches := [flag ["--list"] fun (path, _) => (path, true)]
    words := .single fun w (_, listing) => (w, listing) }

/-- The form of parsing. -/
def parseForm : Form Parsing :=
  { switches :=
      [setting ["-f", "--file"] fun v p => { p with file := v },
        choice ["--format"] [("text", false), ("json", true)] fun v p =>
          { p with json := v.getD false },
        flag ["--tree"] fun p => { p with tree := true },
        setting ["--conf"] fun v p => { p with confidence := v },
        flag ["--asleep"] fun p => { p with asleep := true }]
    words := .optional fun w p => { p with sentence := some w } }

/-- The form of recovering base words. -/
def invertForm : Form (Job × Option String) :=
  { switches :=
      [setting ["--morph"] fun v (j, _) => (j, v),
        setting ["--out"] fun v (j, m) => ({ j with out := v }, m)]
    words := .single fun w (j, m) => ({ j with subject := w }, m) }

/-- Reads the arguments of a command by its form. -/
def readAs {σ : Type} (form : Form σ) (start : σ) (make : σ → Command) (args : List String) :
    Except Halt (Command × Bool) := do
  let (st, left) ← form.read start args
  return (make st, left)

/-- Reads a command by its name. -/
def readCommand (name : String) (args : List String) : Except Halt (Command × Bool) :=
  match name with
  | "load-grammar" =>
    readAs loadForm ("", false) (fun (path, listing) => .loadGrammar path listing) args
  | "enable" => readAs jobForm {} (.setRule true) args
  | "disable" => readAs jobForm {} (.setRule false) args
  | "parse" => readAs parseForm {} .parse args
  | "dump-rules" => readAs subjectForm {} (fun j => .dumpRules j.subject) args
  | "words" => readAs subjectForm {} (fun j => .words j.subject) args
  | "orphans" => readAs outForm {} (fun j => .orphans j.out) args
  | "harvest-lex" => readAs jobForm {} .harvest args
  | "check-morph" => readAs jobForm {} .check args
  | "base-lex" => readAs invertForm ({}, none) (fun (j, m) => .invert j m) args
  | _ => .error .usage

/-- Reads a command and its arguments into a request. -/
def takeCommand : List String → Request → Except Halt (Request × Bool)
  | name :: args, r => do
    let (command, left) ← readCommand name args
    return ({ r with command := some command }, left)
  | [], _ => .error .usage

/-- The form of the whole command line. -/
def requestForm : Form Request :=
  { switches :=
      [setting ["-g", "--grammar"] fun v r => { r with grammars := r.grammars ++ [v] },
        setting ["--top"] fun v r => { r with top := v },
        setting ["--robot-name"] fun v r => { r with robotName := v },
        choice ["--attn-mode"] (AttentionMode.all.map fun m => (m.option, m))
          fun v r => { r with attention := v },
        flag ["--close"] fun r => { r with closing := true },
        flag ["--substitute"] fun r => { r with substitute := true },
        setting ["--log-file"] fun v r => { r with logFile := v },
        flag ["-v", "--verbose"] fun r => { r with verbose := true },
        flag ["--debug"] fun r => { r with debug := true }]
    words := .rest takeCommand }

/-- Reads a command line. Arguments that nothing takes are an error. -/
def Request.ofArgs (args : List String) : Except Halt Request := do
  let (r, left) ← requestForm.read {} args
  if left then throw .usage
  return r

end Utterance.CommandLine
