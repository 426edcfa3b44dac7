import Utterance.Interpreter

/-!
# Interpreting an utterance

One turn of a conversation goes through stages: the attention check, a parse of the text as given,
repair of typing errors if there is no parse, guesses about unknown words if there is still none, the
association list and the speech act. Each stage writes a step into the trace and its notes into the
journal. A fault in a stage ends the turn with a trace of it and an interpretation that says nothing.
-/

namespace Utterance.Interpreter

/-! ## The state of a turn -/

/-- A turn under way. -/
structure Turn where
  interpreter : Interpreter
  trace : Trace
  /-- The time on the clock. -/
  now : String
  text : String
  confidence : Confidence
  /-- Whether the system pays attention already. -/
  awake : Bool
  notes : Journal := []
  attention : Bool := false
  /-- The text that was parsed last. -/
  source : String
  /-- Number of derivations of it. -/
  candidates : Nat := 0
  corrected : Option String := none
  unknown : List String := []
  guesses : List Guess := []
  longestUnknown : Option String := none
  alist : AssocList := ⟨""⟩
  /-- What is made of the utterance; nothing if it is ignored. -/
  result : Option Interpretation := none

/-- A fault that ends a turn, with the turn up to there. -/
abbrev Halt := Fault × Turn

namespace Turn

/-- The turn with more notes. -/
def write (t : Turn) (notes : Journal) : Turn := { t with notes := t.notes ++ notes }

/-- The turn with one more note. -/
def note (t : Turn) (topic : Topic) (message : String) : Turn := t.write [topic.entry message]

/-- The turn with one more step in its trace, which the journal shows, too. -/
def record (t : Turn) (name : String) (inputs outputs : List (String × Datum))
    (description : Option String) : Turn :=
  { t with trace := t.trace.addStep t.now name inputs outputs description }.write
    (Journal.withContext .debug .interpreter (name ++ " done") outputs)

/-- A pair of texts as data. -/
def pairDatum (a b : String) : Datum := .tuple [.text a, .text b]

/-- Guesses as data. -/
def guessesDatum (gs : List Guess) : Datum := .list (gs.map fun g => pairDatum g.word g.category)

/-! ## Stages -/

/-- Looks for an attention phrase in the raw text. -/
def attend (t : Turn) : Turn :=
  let mode := t.interpreter.settings.attention
  let attention := Attention.inText t.text t.interpreter.grammar.alerts mode
  ({ t with attention }.note .attentionStep "Step 1: Attention - checking for wake words.").record
    "Attention" [("mode", .text mode.name)] [("attention", .bool attention)]
    (some "Looked for an attention word in the raw text.")

/-- Parses the source with the grammar as it is now. -/
def parseSource (t : Turn) : Except Halt Turn :=
  let o := Analysis.parse t.interpreter.grammar (.text t.source) t.confidence
  let t := { t with interpreter := { t.interpreter with analysis := o.state } }.write o.notes
  match o.result with
  | .ok candidates => .ok { t with candidates }
  | .error e => .error (e, t)

/-- Parses the text as given. -/
def parse (t : Turn) : Except Halt Turn := do
  let t ← (t.note .parseStep "Step 2: Parse - charting the sentence.").parseSource
  return t.record "Parse" [("text", .text t.source)]
    [("candidates", .int t.candidates),
      ("states", .int t.interpreter.analysis.chart.states.size)]
    none

/-- Goes on with a corrected text. -/
def correct (t : Turn) (fixed : String) : Turn :=
  { t with corrected := some fixed, source := fixed }

/-- Repairs typing errors and parses what came of it. -/
def repair (t : Turn) : Except Halt Turn := do
  let t := t.note .typoStep "Step 3: TypoFix - trying small edits."
  let o := t.interpreter.vocabulary.repair (some t.text)
  let t := { t with interpreter := { t.interpreter with vocabulary := o.state } }.write o.notes
  let t ← match o.result with
    | .error e => .error (e, t)
    | .ok none => .ok t
    | .ok (some fixed) => (t.correct fixed).parseSource
  return t.record "TypoFix" [("text", .text t.text)]
    [("corrected", .ofOption t.corrected),
      ("candidates", .int t.candidates),
      ("changes", .list (o.state.corrections.map fun (old, new) => pairDatum old new))]
    none

/-- The words of the source that are not known. -/
def findUnknown (t : Turn) : Turn :=
  { t with
    unknown := (tokenize true t.source).filter fun w => !t.interpreter.vocabulary.known w }

/-- Applies a change of the front end to every guess. -/
def forGuesses (f : Interpreter → String → String → Interpreter × Nat × Journal) (t : Turn) : Turn :=
  t.guesses.foldl
    (fun t g =>
      let (i, _, notes) := f t.interpreter g.category g.word
      { t with interpreter := i }.write notes)
    t

/-- Keeps the guesses for a decision if they led to a parse; takes them back otherwise. -/
def settle (t : Turn) : Turn :=
  if 0 < t.candidates then
    { t with
      interpreter :=
        { t.interpreter with provisional := t.interpreter.provisional ++ t.guesses } }
  else t.forGuesses unlearn

/-- Guesses the categories of unknown words and parses with them. -/
def guess (t : Turn) : Except Halt Turn := do
  let t := t.note .guessStep "Step 4: Guess - inferring categories of unknown words."
  let (vocabulary, guesses) := t.interpreter.vocabulary.guess t.source
  let longest := vocabulary.longestUnknown
  let t :=
    { t with
      interpreter := { t.interpreter with vocabulary }
      guesses
      longestUnknown := if longest.isEmpty then none else some longest }
  -- the guesses are learnt for the parse and stay only if it succeeds
  let t ← if guesses.isEmpty then .ok t else (t.forGuesses learn).parseSource.map settle
  let t := t.record "Guess" [("text", .text t.source)]
    [("guesses", guessesDatum guesses),
      ("marked", .text vocabulary.marked),
      ("candidates", .int t.candidates)]
    none
  return if 0 < t.candidates then { t with unknown := [] } else t

/-- The head of the selected derivation, which leaves the cursor there. -/
def root (t : Turn) : Except Halt (Option String × Turn) :=
  let o := t.interpreter.analysis.root t.interpreter.grammar
  let t := { t with interpreter := { t.interpreter with analysis := o.state } }
  match o.result with
  | .ok head => .ok (head, t)
  | .error e => .error (e, t)

/-- Reads the association list off the selected derivation. -/
def readSlots (t : Turn) : Except Halt Turn :=
  if t.candidates = 0 then .ok t
  else
    let o := t.interpreter.analysis.assocList t.interpreter.grammar t.interpreter.settings.closing
    let t := { t with interpreter := { t.interpreter with analysis := o.state } }
    match o.result with
    | .error e => .error (e, t)
    | .ok alist =>
      let mode := t.interpreter.settings.attention
      .ok
        { t with
          alist
          attention :=
            if mode = .always then t.attention else t.attention || Attention.inList alist mode }

/-- Extracts the association list. -/
def extract (t : Turn) : Except Halt Turn := do
  let t ← (t.note .assocStep "Step 5: AssocList - extracting slots.").readSlots
  let (head, t) ← t.root
  return t.record "AssocList" [("tree", .ofOption head)]
    [("alist", .text t.alist.text), ("normalized", .text t.interpreter.analysis.normalized)]
    none

/-- The first of the longest words. -/
def longestOf (words : List String) : Option String :=
  match words with
  | [] => none
  | w :: rest => some (rest.foldl Guess.longer w)

/-- Ignores the utterance. -/
def ignore (t : Turn) : Turn :=
  let t := t.note .asleep "Asleep and no attention word, ignoring utterance."
  { t with trace := t.trace.conclude t.now none }

/-- Classifies the association list. -/
def classify (t : Turn) : Turn :=
  let t := t.note .actStep "Step 6: SpeechAct - classifying."
  let (r, notes) := SpeechAct.classify t.interpreter.grammar.alerts t.alist t.text t.unknown
  let r :=
    { r with
      attention := r.attention || t.attention
      corrected := t.corrected
      guesses := if 0 < t.candidates then t.guesses else []
      longestUnknown := t.longestUnknown <|> longestOf t.unknown }
  let t := (t.write notes).record "SpeechAct" [("alist", .text t.alist.text)]
    [("act", .text r.act.label)] (some "Classified the association list.")
  let t := { t with trace := t.trace.conclude t.now (some r.act.label), result := some r }
  t.note .verdict ("Speech act: " ++ r.act.label ++ " " ++ Text.quoted t.alist.text)

/-- All stages after the attention check. -/
def stages (t : Turn) : Except Halt Turn := do
  let t ← t.parse
  let t ← if t.candidates = 0 then t.repair else .ok t
  -- unknown words are reported even if wildcards matched them
  let t := t.findUnknown
  let t ←
    if t.candidates = 0 && !t.unknown.isEmpty && t.interpreter.settings.guessing then t.guess
    else .ok t
  let t ← t.extract
  return if !t.awake && !t.attention then t.ignore else t.classify

/-- Ends a turn with a fault. -/
def abort (t : Turn) (e : Fault) : Turn :=
  let t := t.note .failure ("Interpretation failed with error: " ++ e.message)
  { t with trace := t.trace.fail t.now (some e.message), result := some { text := t.text } }

/-- Runs all stages. -/
def run (t : Turn) : Turn :=
  match t.attend.stages with
  | .ok t => t
  | .error (e, t) => t.abort e

end Turn

/-! ## Turns -/

/-- Interprets an utterance, which must be given. The result is nothing if the system is asleep and
the utterance does not wake it. -/
def interpret (i : Interpreter) (stamp : Stamp) (text : Option String) (awake : Bool)
    (confidence : Confidence) : Outcome Interpreter (Option Interpretation) :=
  match text with
  | none => ⟨i, .error (.refused (.needsText .interpret)), []⟩
  | some text =>
    let t : Turn :=
      { interpreter := i
        trace := .opening stamp (some text)
        now := stamp.time
        text
        confidence
        awake
        source := text }
    let t := (t.note .utterance ("Interpreting: '" ++ text ++ "'")).run
    ⟨{ t.interpreter with lastTrace := some t.trace }, .ok t.result, t.notes⟩

end Utterance.Interpreter
