import Utterance.AssocList.Build
import Utterance.Chart.Run
import Utterance.Confidence
import Utterance.Cursor
import Utterance.Token

/-!
# Analyses

What is known about the last sentence: its words, the chart, the derivations that cover it, the one
that was selected and a cursor into it. The grammar is asked anew whenever something is shown, so an
analysis shows the productions that the grammar has now.
-/

namespace Utterance

/-- The analysis of a sentence. -/
structure Analysis where
  words : List String := []
  /-- The words in the spelling of the grammar. -/
  spelling : List String := []
  confidences : List (Option Int) := []
  chart : Chart := {}
  /-- The finished states that cover the sentence and may start one, in the order of discovery. -/
  candidates : List Nat := []
  /-- Which of the candidates is selected. -/
  selected : Option Nat := none
  cursor : Cursor := []

namespace Analysis

/-! ## Candidates -/

/-- The state of a candidate; of the selected one if no number is given. -/
def candidate? (a : Analysis) (n : Option Int) : Option ChartState := do
  let i : Nat ← match n with
    | some n => if 0 ≤ n then some n.toNat else none
    | none => a.selected
  let id ← a.candidates[i]?
  a.chart.states[id]?

/-- Score of a candidate. -/
def score? (a : Analysis) (n : Option Int) : Option Score := (a.candidate? n).map (·.score)

/-- The other candidates with the score of the selected one. -/
def ambiguous (a : Analysis) : List Nat :=
  match a.score? none with
  | none => []
  | some best =>
    (List.range a.candidates.length).filter fun i =>
      a.selected != some i && a.score? (some i) == some best

/-- Points the cursor at the root of a candidate. The result tells whether there is one. -/
def top (a : Analysis) (n : Option Int) : Analysis × Bool :=
  match a.candidate? n with
  | some s => ({ a with cursor := .root (a.chart.tree s) }, true)
  | none => ({ a with cursor := [] }, false)

/-- Selects a candidate, if there is one with this number. The result is the selection after it. -/
def select (g : Grammar) (a : Analysis) (n : Int) : Outcome Analysis (Option Nat) :=
  match a.candidate? (some n) with
  | none => ⟨a, .ok a.selected, []⟩
  | some s =>
    let (spelling, fault) :=
      (a.chart.tree s).spell g a.words.toArray a.words.toArray
    let a := { a with selected := some n.toNat, spelling := spelling.toList }
    match fault with
    | some e => ⟨a, .error e, []⟩
    | none => ⟨(a.top (some n)).1, .ok a.selected, []⟩

/-! ## Parsing -/

/-- A sentence to be parsed. -/
inductive Sentence where
  /-- A text, whose punctuation is dropped. -/
  | text (s : String)
  | words (ws : List String)

/-- The words of a sentence. -/
def Sentence.toWords : Sentence → List String
  | .text s => tokenize true s
  | .words ws => ws

/-- Whether a state covers the whole sentence by a production that may start one. -/
def covers (t : Task) (s : ChartState) : Bool :=
  s.item.start == 0 && s.item.stop == t.length && t.isFinished s.item
    && (t.grammar.productions[s.item.rule]?).any (·.status == .top)

/-- The states of a chart that cover the whole sentence. -/
def covering (t : Task) (c : Chart) : List Nat :=
  (List.range c.states.size).filter fun i => (c.states[i]?).any (covers t)

/-- Position of the first best score; `best` is the position of the best one before `i`. -/
def bestFrom (best : Nat) (bestScore : Score) (i : Nat) : List Score → Nat
  | [] => best
  | s :: rest =>
    if s < bestScore then bestFrom i s (i + 1) rest else bestFrom best bestScore (i + 1) rest

/-- Position of the first best score. -/
def bestOf : List Score → Nat
  | [] => 0
  | s :: rest => bestFrom 0 s 1 rest

/-- Analyses a sentence, with or without looking one word ahead, and selects the best derivation. The
result is the number of candidates. -/
def parseWith (lookahead : Bool) (g : Grammar) (sentence : Sentence) (conf : Confidence) :
    Outcome Analysis Nat :=
  let words := sentence.toWords
  match conf.read words.length with
  | .error e => ⟨{ words }, .error e, []⟩
  | .ok (confidences, notes) =>
    if words.isEmpty || g.productions.isEmpty then ⟨{ words, confidences }, .ok 0, notes⟩
    else
      let task := Task.ofWords g words lookahead
      let chart := task.chart
      let candidates := covering task chart
      let a : Analysis := { words, confidences, chart, candidates }
      let said := "'" ++ " ".intercalate words ++ "'"
      let states := toString chart.states.size ++ " states"
      if candidates.isEmpty then
        ⟨a, .ok 0, notes ++ [Topic.noParse.entry ("No parse for " ++ said ++ " (" ++ states ++ ")")]⟩
      else
        let best := bestOf (candidates.filterMap fun id => (chart.states[id]?).map (·.score))
        let o := a.select g best
        ⟨o.state, o.result.map fun _ => candidates.length,
          notes ++ [Topic.parsed.entry
            ("Parsed " ++ said ++ ": " ++ states ++ ", " ++ toString candidates.length
              ++ " candidates, picked " ++ toString best)]⟩

/-- Analyses a sentence as the parser does, which looks one word ahead. -/
def parse (g : Grammar) (sentence : Sentence) (conf : Confidence) : Outcome Analysis Nat :=
  parseWith true g sentence conf

/-! ## Words -/

/-- The words in the spelling of the grammar. -/
def normalized (a : Analysis) : String := " ".intercalate a.spelling

/-- The spelled words `first` to `last`. -/
def spanText (a : Analysis) (first last : Int) : Except Fault String :=
  if first < 0 then .error (.refused (.spanStart first))
  else .ok (" ".intercalate (Text.slice first.toNat (last + 1) a.spelling))

/-- The confidence of word `i`. -/
def wordConfidence (a : Analysis) (i : Int) : Option Int :=
  if 0 ≤ i then (a.confidences[i.toNat]?).join else none

/-! ## The cursor -/

/-- The analysis after a walk that started at its root: the cursor is back there, or where the walk
stopped. -/
def afterWalk {α : Type} (a : Analysis) (walk : Except Cursor.Stop α) : Outcome Analysis α :=
  match walk with
  | .ok x => ⟨a, .ok x, []⟩
  | .error (e, c) => ⟨{ a with cursor := c }, .error e, []⟩

/-- The analysis after a move. The result tells whether it was possible. -/
def afterMove (a : Analysis) (move : Except Fault (Option Cursor)) : Outcome Analysis Bool :=
  match move with
  | .ok (some c) => ⟨{ a with cursor := c }, .ok true, []⟩
  | .ok none => ⟨a, .ok false, []⟩
  | .error e => ⟨a, .error e, []⟩

/-- Moves to the first node inside the focus. -/
def down (g : Grammar) (a : Analysis) : Outcome Analysis Bool := a.afterMove (a.cursor.down g)

/-- Moves to the next node beside the focus. -/
def next (g : Grammar) (a : Analysis) : Outcome Analysis Bool := a.afterMove (a.cursor.next g)

/-- Moves back up. -/
def up (a : Analysis) : Outcome Analysis Bool := a.afterMove (.ok a.cursor.up)

/-! ## Views of the selected derivation -/

/-- Head of the selected derivation. -/
def root (g : Grammar) (a : Analysis) : Outcome Analysis (Option String) :=
  let a := (a.top none).1
  ⟨a, a.cursor.focus g, []⟩

/-- The first name without a small letter in the selected derivation. The cursor stays there. -/
def topCategory (g : Grammar) (a : Analysis) : Outcome Analysis (Option String) :=
  match a.top none with
  | (a, false) => ⟨a, .ok none, []⟩
  | (a, true) =>
    match a.cursor.findMajor g with
    | .ok (some (label, c)) => ⟨{ a with cursor := c }, .ok (some label), []⟩
    | .ok none => ⟨a, .ok none, []⟩
    | .error (e, c) => ⟨{ a with cursor := c }, .error e, []⟩

/-- The selected derivation as indented lines. -/
def treeText (g : Grammar) (a : Analysis) : Outcome Analysis String :=
  match a.top none with
  | (a, false) => ⟨a, .ok "", []⟩
  | (a, true) =>
    a.afterWalk ((a.cursor.lines g a.spelling 0 0 0).map fun ls => "\n".intercalate ls)

/-- The association list of the selected derivation. -/
def assocList (g : Grammar) (a : Analysis) (closing : Bool) : Outcome Analysis AssocList :=
  match a.top none with
  | (a, false) => ⟨a, .ok ⟨""⟩, []⟩
  | (a, true) => a.afterWalk (AssocList.build g a.spelling closing a.cursor)

end Analysis

end Utterance
