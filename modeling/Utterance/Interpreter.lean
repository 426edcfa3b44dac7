import Utterance.Analysis
import Utterance.Grammar.Load
import Utterance.Lexicon.Loaded
import Utterance.Settings
import Utterance.SpeechAct
import Utterance.Trace
import Utterance.Vocabulary.Guess
import Utterance.Vocabulary.Repair

/-!
# The front end

Everything that is known in a conversation: the grammar, the irregular forms, the vocabulary, the
analysis of the last sentence, and the guessed words that were neither accepted nor rejected yet.
-/

namespace Utterance

/-- The state of a front end. -/
structure Interpreter where
  settings : Settings
  irregulars : Irregulars
  grammar : Grammar
  /-- Whether the irregular forms in grammar files are entered into the table. -/
  linked : Bool := true
  vocabulary : Vocabulary
  analysis : Analysis := {}
  /-- The guesses that made a sentence understood and are not decided yet. -/
  provisional : List Guess := []
  lastTrace : Option Trace := none

namespace Interpreter

/-- A front end without a grammar. -/
def ofSettings (s : Settings) : Except Fault (Interpreter × Journal) := do
  let vocabulary ← Vocabulary.ofBins s.bins s.substitute
  let i : Interpreter :=
    { settings := s
      irregulars := { capacity := s.maxIrregulars }
      grammar := { dictation := s.dictation, maxAlerts := s.maxAlerts }
      vocabulary }
  return (i, [Topic.initialized.entry ("Interpreter initialized with " ++ s.shown)])

/-! ## Grammars -/

/-- Reads a grammar file into the grammar and, if they are linked, the irregular forms. The result
tells whether the file could be opened. -/
def readGrammar (i : Interpreter) (view : Files.View) (path : String) : Outcome Interpreter Bool :=
  let o := i.grammar.load (if i.linked then some i.irregulars else none) view path
  ⟨{ i with grammar := o.state.1, irregulars := o.state.2.getD i.irregulars }, o.result, o.notes⟩

/-- Teaches the grammar expansions of heads, one after the other. -/
def teach (g : Grammar) (rules : List (String × String)) : Grammar.Growth :=
  rules.foldl
    (fun (s : Grammar.Growth) (head, expansion) =>
      let growth := s.grammar.extend head expansion
      { grammar := growth.grammar
        added := s.added + growth.added
        notes := s.notes ++ growth.notes })
    { grammar := g }

/-- Adds the inflected forms of the words in the grammar, if the settings ask for it. -/
def inflect (i : Interpreter) : Interpreter × Journal :=
  if i.settings.inflecting then
    let (report, notes) := Lexicon.deriveLoaded i.irregulars i.grammar
    let growth := teach i.grammar
      (report.sections.flatMap fun (head, words) => words.map fun word => (head, word))
    ({ i with grammar := growth.grammar },
      notes ++ growth.notes
        ++ [Topic.derivedForms.entry ("Added " ++ toString growth.added ++ " derived word forms")])
  else (i, [])

/-- Adds an attention phrase, unless it is empty. -/
def answerTo (i : Interpreter) (name : String) : Interpreter × Journal :=
  if name.isEmpty then (i, [])
  else
    let growth := i.grammar.extend Grammar.attention name
    ({ i with grammar := growth.grammar }, growth.notes)

/-- Replaces the vocabulary by the words of the grammar. -/
def harvest (i : Interpreter) : Interpreter × Journal :=
  let o := i.vocabulary.harvest i.grammar
  ({ i with vocabulary := o.state }, o.notes)

/-- Lets a rule start a sentence. -/
def start (i : Interpreter) (top path : String) : Interpreter × Journal :=
  match i.grammar.enable (some top) with
  | (g, true) => ({ i with grammar := g }, [])
  | (g, false) =>
    ({ i with grammar := g },
      [Topic.noSentenceRule.entry ("No sentence rule <" ++ top ++ "> in " ++ path)])

/-- Loads a grammar file and makes everything ready to parse with it: the inflected forms, an extra
attention phrase, the vocabulary and the rule that starts a sentence. The result is the number of
usable rules, or nothing if the file could not be opened. -/
def loadGrammar (i : Interpreter) (view : Files.View) (path top name : String) :
    Outcome Interpreter (Option Nat) :=
  let o := i.readGrammar view path
  match o.result with
  | .error e => ⟨o.state, .error e, o.notes⟩
  | .ok false => ⟨o.state, .ok none, o.notes⟩
  | .ok true =>
    let (i, inflected) := o.state.inflect
    let (i, named) := i.answerTo name
    let (i, harvested) := i.harvest
    let (i, started) := i.start (if top.isEmpty then i.settings.topRule else top) path
    ⟨i, .ok (some i.grammar.ruleCount),
      o.notes ++ inflected ++ named ++ harvested ++ started
        ++ [Topic.grammarSummary.entry i.grammar.summary]⟩

/-! ## Words -/

/-- Adds one word to the grammar and the vocabulary. -/
def learn (i : Interpreter) (category word : String) : Interpreter × Nat × Journal :=
  let growth := i.grammar.extend category word
  ({ i with grammar := growth.grammar, vocabulary := (i.vocabulary.add word).1 }, growth.added,
    growth.notes)

/-- Takes one word out of the grammar and the vocabulary. -/
def unlearn (i : Interpreter) (category word : String) : Interpreter × Nat × Journal :=
  let growth := i.grammar.retract category word
  ({ i with grammar := growth.grammar, vocabulary := (i.vocabulary.remove word).1 }, growth.added,
    growth.notes)

/-- Teaches new words for a category. The result is the number of new rules. -/
def addWords (i : Interpreter) (category : String) (words : List String) :
    Outcome Interpreter Nat :=
  let (i, count, notes) := words.foldl
    (fun ((i, count, notes) : Interpreter × Nat × Journal) word =>
      let (i, added, more) := i.learn category word
      (i, count + added, notes ++ more))
    (i, 0, [])
  ⟨i, .ok count, notes⟩

/-- Keeps a guessed word for good. The result tells whether it was undecided. -/
def acceptGuess (i : Interpreter) (g : Guess) : Interpreter × Bool :=
  ({ i with provisional := i.provisional.erase g }, i.provisional.contains g)

/-- Takes a guessed word back. The result tells whether a rule was removed. -/
def rejectGuess (i : Interpreter) (g : Guess) : Outcome Interpreter Bool :=
  let (i, removed, notes) := i.unlearn g.category g.word
  let i := { i with provisional := i.provisional.erase g }
  if removed = 0 then ⟨i, .ok false, notes⟩
  else
    ⟨i, .ok true,
      notes ++ [Topic.rejectedGuess.entry ("Rejected guess " ++ g.word ++ " as " ++ g.category)]⟩

end Interpreter

end Utterance
