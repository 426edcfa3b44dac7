import Utterance.CommandLine.Console
import Utterance.CommandLine.Request
import Utterance.Interpreter.Turn

/-!
# The command line

The commands that load, change and write grammars, interpret sentences, and derive and check
lexicons. A run is a function from its arguments and the console to the console after it and how it
ended.
-/

namespace Utterance.CommandLine

open Shell

/-! ## Grammars -/

/-- The settings that a request asks for. -/
def Request.settings (r : Request) : Except Fault Settings :=
  match r.attention with
  | none => .error .modeWithheld
  | some attention =>
    let base : Settings := { attention, closing := r.closing, substitute := r.substitute }
    .ok (match r.top.filter (!·.isEmpty) with
      | some top => { base with topRule := top }
      | none => base)

/-- A front end with all grammars of a request. -/
def build (r : Request) : Shell Interpreter := do
  let (start, notes) ← demand (r.settings >>= Interpreter.ofSettings)
  write notes
  r.grammars.foldlM
    (fun i path => do
      let path ← demand (path.elim (.error .pathWithheld) .ok)
      let (i, result) ← settle (i.loadGrammar (← view) path "" (r.robotName.getD ""))
      match ← demand result with
      | some _ => return i
      | none => fail ("cannot read grammar " ++ path))
    start

/-- A front end for a command that cannot do without a grammar. -/
def buildLoaded (r : Request) : Shell Interpreter :=
  if r.grammars.isEmpty then fail "no grammar loaded (use -g PATH)" else build r

/-- The heads that may start a sentence, on one line. -/
def sentenceRules (g : Grammar) : String :=
  let heads := g.topHeads
  "Sentence rules: " ++ if heads.isEmpty then "(none)" else ", ".intercalate heads

/-- Loads a grammar and tells what it holds. -/
def runLoad (r : Request) (path : String) (listing : Bool) : Shell Unit := do
  let i ← build { r with grammars := r.grammars ++ [some path] }
  let g := i.grammar
  print g.summary
  print ("Heads: " ++ toString g.heads.length ++ "  " ++ sentenceRules g)
  print ("Words: " ++ toString i.vocabulary.size ++ "  Morphology exceptions: "
    ++ toString i.irregulars.size)
  if !g.alerts.isEmpty then print ("Attention words: " ++ ", ".intercalate g.alerts)
  if listing then printAll (g.listRules.map ("  " ++ ·))

/-- Lets a rule start a sentence, or keeps it from doing so. -/
def runSetRule (r : Request) (on : Bool) (job : Job) : Shell Unit := do
  let i ← buildLoaded r
  let (g, found) :=
    if on then i.grammar.enable (some job.subject) else i.grammar.disable (some job.subject)
  if !found then fail ("no rule <" ++ job.subject ++ ">")
  print (sentenceRules g)
  match job.out.filter (!·.isEmpty) with
  | none => pure ()
  | some path =>
    let _ ← demand (← onFiles (g.dump · path))

/-- Writes the rules. -/
def runDump (r : Request) (path : String) : Shell Unit := do
  let i ← buildLoaded r
  match ← demand (← onFiles (i.grammar.dump · path)) with
  | none => fail ("cannot write " ++ path)
  | some count => print ("Wrote " ++ toString count ++ " rules to " ++ path)

/-- Writes the known words. -/
def runWords (r : Request) (path : String) : Shell Unit := do
  let i ← buildLoaded r
  let count ← demandFile (← onFiles (i.vocabulary.writeWords · path))
  print ("Wrote " ++ toString count ++ " words to " ++ path)

/-- Lists the heads that nothing leads to. -/
def runOrphans (r : Request) (out : Option String) : Shell Unit := do
  let i ← buildLoaded r
  match out.filter (!·.isEmpty) with
  | none => printAll i.grammar.orphans
  | some path =>
    let count ← demand (← onFiles (i.grammar.writeOrphans · path))
    print ("Wrote " ++ toString count ++ " orphan rules to " ++ path)

/-! ## Sentences -/

/-- An empty text as it is shown. -/
def orEmpty (s : String) : String := if s.isEmpty then "(empty)" else s

/-- Shows what is made of a sentence as text. -/
def printText (i : Interpreter) (r : Interpretation) (tree : Bool) : Shell Unit := do
  print ("Speech act: " ++ r.act.label)
  print ("Alist: " ++ orEmpty r.alist.pretty)
  match r.corrected.filter (!·.isEmpty) with
  | some text => print ("Corrected: " ++ text)
  | none => pure ()
  printAll (r.guesses.map fun g => "Guessed: " ++ g.word ++ " as " ++ g.category)
  if !r.unknown.isEmpty then print ("Unknown: " ++ " ".intercalate r.unknown)
  if tree && !r.alist.text.isEmpty then print (← demand (i.analysis.treeText i.grammar).result)

/-- Shows what is made of a sentence as data. -/
def printJson (i : Interpreter) (r : Interpretation) (tree : Bool) : Shell Unit := do
  let fields ←
    if tree then
      pure (Datum.put "tree" (.text (← demand (i.analysis.treeText i.grammar).result)) r.fields)
    else pure r.fields
  print ((Datum.record fields).json (some 2))

/-- Interprets one sentence. -/
def interpret (i : Interpreter) (p : Parsing) (text : String) (conf : Confidence) :
    Shell (Interpreter × Option Interpretation) := do
  let (i, result) ← settle (i.interpret (← get).times.stamp (some text) (!p.asleep) conf)
  return (i, ← demand result)

/-- Interprets sentences one after the other. -/
def interpretAll (p : Parsing) (i : Interpreter) :
    List String → Shell (List (String × Option Interpretation))
  | [] => return []
  | line :: rest => do
    let (i, result) ← interpret i p line .absent
    return (line, result) :: (← interpretAll p i rest)

/-- One line about a sentence. -/
def resultLine (line : String) : Option Interpretation → String
  | none => Text.padRight 10 "(asleep)" ++ " " ++ Text.padRight 40 "" ++ " | " ++ line
  | some r =>
    Text.padRight 10 r.act.label ++ " " ++ Text.padRight 40 r.alist.pretty ++ " | " ++ line

/-- Interprets every line of a file. -/
def runFile (i : Interpreter) (p : Parsing) (path : String) : Shell Unit := do
  let lines ← demandFile ((← get).files.read (.ofString path) >>= Content.lines)
  let results ← interpretAll p i ((lines.map Text.trim).filter (!·.isEmpty))
  if p.json then
    let data := results.map fun (_, r) => (r.map Interpretation.toDatum).getD .null
    print ((Datum.list data).json (some 2))
  else printAll (results.map fun (line, r) => resultLine line r)

/-- The sentence of a request, or a line that is asked for. -/
def sentence (p : Parsing) : Shell String :=
  match p.sentence.filter (!·.isEmpty) with
  | some text => return text
  | none => do
    print "Enter a sentence:"
    return Text.trim (← readLine)

/-- Interprets a sentence or every line of a file. -/
def runParse (r : Request) (p : Parsing) : Shell Unit := do
  let i ← buildLoaded r
  match p.file.filter (!·.isEmpty) with
  | some path => runFile i p path
  | none =>
    let conf := (p.confidence.map Confidence.text).getD .absent
    let (i, result) ← interpret i p (← sentence p) conf
    match result with
    | none => print "(asleep)"
    | some r => if p.json then printJson i r p.tree else printText i r p.tree

/-! ## Lexicons -/

/-- The irregular forms of a file; none if no file is given. -/
def loadIrregulars (path : String) : Shell Irregulars := do
  if path.isEmpty then return {}
  let (m, result) ← settle (Irregulars.load {} (← get).files (.ofString path) true)
  match ← demand result with
  | some _ => return m
  | none => fail ("cannot read morphology from " ++ path)

/-- How a command handles a result that may be a fault. -/
abbrev Handling := {α : Type} → Except Fault α → Shell α

/-- Derives the forms of a lexicon, one step after the other, since the log may be one of the files. -/
def deriveForms (handle : Handling) (m : Irregulars) (base : Route) (check : Bool) :
    Shell Lexicon.Report := do
  let (m, ready) ← settle (Lexicon.prepare m (← get).files base check)
  handle ready
  let bases ← handle (Lexicon.readSections (← get).files base Lexicon.sources)
  let (report, notes) := Lexicon.derive m bases check true
  write notes
  return report

/-- Derives a lexicon into a file. -/
def writeDerived (handle : Handling) (m : Irregulars) (base out : Path) (check : Bool) :
    Shell Lexicon.Report := do
  let report ← deriveForms handle m (.ofPath base) check
  handle (← onFiles (Lexicon.writeReport · base out report))
  return report

/-- Where the derived forms of a lexicon go: beside it, if nothing else is asked for. -/
def derivedPath (job : Job) : Except Fault String :=
  match job.out.filter (!·.isEmpty) with
  | some out => .ok out
  | none => ((Path.ofString job.subject).withName Lexicon.defaultName).map Path.text

/-- Writes the inflected forms of a lexicon. -/
def runHarvest (job : Job) : Shell Unit := do
  let m ← loadIrregulars job.subject
  let out ← demand (derivedPath job)
  let report ← writeDerived demand m (.ofString job.subject) (.ofString out) false
  print ("Wrote " ++ toString report.count ++ " derived forms to " ++ out)

/-- Ends a run with an error if something did not come back. -/
def exitOn (r : Lexicon.Report) : Shell Unit := if r.errors = 0 then pure () else throw (.exit 1)

/-- Derives forms and checks that each of them leads back to its base. -/
def runCheck (job : Job) : Shell Unit := do
  let report ←
    match job.out.filter (!·.isEmpty) with
    | some out => writeDerived demandFile {} (.ofString job.subject) (.ofString out) true
    | none => deriveForms demandFile {} (.ofString job.subject) true
  printAll (report.problems.map fun p => "  " ++ p ++ " !")
  print ("Found " ++ toString report.errors ++ " inconsistencies in " ++ toString report.count
    ++ " derived forms")
  exitOn report

/-- Recovers the base words of a derived lexicon. -/
def runInvert (job : Job) (irregulars : Option String) : Shell Unit := do
  let m ← loadIrregulars (irregulars.getD "")
  let forms ← demandFile (Lexicon.readForms (← get).files (.ofString job.subject))
  let (report, notes) := Lexicon.invert m forms true
  write notes
  let files ← demandFile (Lexicon.writeBases m forms (← get).files job.out)
  modify fun c => { c with files }
  printAll (report.sections.map fun (name, words) => name ++ ": " ++ " ".intercalate words)
  print ("Found " ++ toString report.errors ++ " inconsistencies")
  exitOn report

/-! ## Runs -/

/-- Runs a command. -/
def Command.run (r : Request) : Command → Shell Unit
  | .loadGrammar path listing => runLoad r path listing
  | .setRule on job => runSetRule r on job
  | .parse p => runParse r p
  | .dumpRules path => runDump r path
  | .words path => runWords r path
  | .orphans out => runOrphans r out
  | .harvest job => runHarvest job
  | .check job => runCheck job
  | .invert job irregulars => runInvert job irregulars

/-- How the program is called. -/
def usage : String :=
  "usage: parlance [-h] [-g GRAMMAR] [--top TOP] [--robot-name ROBOT_NAME]\n"
    ++ "                [--attn-mode \x7balways,anywhere,start,only\x7d] [--close] [--substitute]\n"
    ++ "                [--log-file LOG_FILE] [-v] [--debug]\n"
    ++ "                COMMAND ...\n"
    ++ "commands: load-grammar enable disable parse dump-rules words orphans harvest-lex\n"
    ++ "          check-morph base-lex\n"

/-- Runs what a command line asks for. -/
def runArgs (args : List String) : Shell Unit :=
  let showHelp (code : Nat) : Shell Unit := do
    modify fun c => { c with out := c.out ++ usage }
    throw (.exit code)
  match Request.ofArgs args with
  | .error .help => showHelp 0
  | .error .usage => do
    modify fun c => { c with err := c.err ++ usage }
    throw (.exit 2)
  | .ok r =>
    match r.command with
    | none => showHelp 1
    | some command => do
      openLog r.logFile (if r.verbose then .info else .warning) r.debug
      command.run r

/-- Runs a command line. The result is the exit code, or the fault that stopped the run. -/
def run (args : List String) (c : Console) : Console × Except Fault Nat :=
  match runArgs args c with
  | .ok () c => (c, .ok 0)
  | .error (.exit code) c => (c, .ok code)
  | .error (.fault e) c => (c, .error e)

end Utterance.CommandLine
