import Utterance.Proofs.Interpreter.Turn
import Utterance.Proofs.Vocabulary.Built

/-!
# States of a front end

A front end is reached from a fresh one by loading grammars, teaching words, interpreting utterances,
deciding on guesses, and by operations on its grammar and its vocabulary themselves. Whatever the
order, its grammar is one that can be built, so every utterance is interpreted to the end.
-/

namespace Utterance

/-- What one operation makes of a grammar. -/
inductive Grammar.Change (g : Grammar) : Grammar → Prop where
  | load (irregulars : Option Irregulars) (view : Files.View) (path : String) :
      Change g (g.load irregulars view path).state.1
  | expand (head line whence : String) : Change g (g.expand head line whence).grammar
  | extend (head expansion : String) : Change g (g.extend head expansion).grammar
  | retract (head expansion : String) : Change g (g.retract head expansion).grammar
  | clear : Change g g.clear
  | setStatus (head : Option String) (status : Status) : Change g (g.setStatus head status).1
  | setStatusNumber (head : Option String) (n : Int) : Change g (g.setStatusNumber head n).state
  | enable (head : Option String) : Change g (g.enable head).1
  | disable (head : Option String) : Change g (g.disable head).1

namespace Interpreter

/-- A call in a conversation. -/
inductive Call where
  | addWords (category : String) (words : List String)
  | interpret (stamp : Stamp) (text : Option String) (awake : Bool) (confidence : Confidence)
  | acceptGuess (g : Guess)
  | rejectGuess (g : Guess)

/-- The front end after a call. -/
def Call.run (i : Interpreter) : Call → Interpreter
  | .addWords category words => (i.addWords category words).state
  | .interpret stamp text awake confidence => (i.interpret stamp text awake confidence).state
  | .acceptGuess g => (i.acceptGuess g).1
  | .rejectGuess g => (i.rejectGuess g).state

/-- The front ends that the operations on them and on their parts lead to. -/
inductive Reached : Interpreter → Prop where
  | start {s : Settings} {i : Interpreter} {notes : Journal} (fresh : ofSettings s = .ok (i, notes)) :
      Reached i
  | loadGrammar {i : Interpreter} (reached : Reached i) (view : Files.View) (path top name : String) :
      Reached (i.loadGrammar view path top name).state
  | call {i : Interpreter} (reached : Reached i) (c : Call) : Reached (c.run i)
  | grammar {i : Interpreter} (reached : Reached i) {g : Grammar} (change : i.grammar.Change g) :
      Reached { i with grammar := g }
  | vocabulary {i : Interpreter} (reached : Reached i) {v : Vocabulary}
      (change : i.vocabulary.Change v) : Reached { i with vocabulary := v }
  | parts {i : Interpreter} (reached : Reached i) (irregulars : Irregulars) (linked : Bool)
      (analysis : Analysis) : Reached { i with irregulars, linked, analysis }

end Interpreter

/-! ## Their grammars -/

namespace Grammar

variable {g g' : Grammar}

/-- An operation on a grammar that was built leaves one that was. -/
theorem Built.change (h : g.Built) (hchange : g.Change g') : g'.Built := by
  cases hchange with
  | load irregulars view path => exact h.load irregulars view path
  | expand head line whence => exact h.expand head line whence
  | extend head expansion => exact h.extend head expansion
  | retract head expansion => exact h.retract head expansion
  | clear => exact h.clear
  | setStatus head status => exact h.setStatus head status
  | setStatusNumber head n => exact h.setStatusNumber head n
  | enable head => exact h.enable head
  | disable head => exact h.disable head

/-- So does teaching it rules. -/
theorem Built.teach (h : g.Built) (rules : List (String × String)) :
    (Interpreter.teach g rules).grammar.Built := by
  have hteach : (Interpreter.teach g rules).grammar
      = rules.foldl (fun g rule => (g.extend rule.1 rule.2).grammar) g :=
    (List.foldl_hom Growth.grammar fun _ _ => rfl).symm
  rw [hteach]
  clear hteach
  induction rules generalizing g with
  | nil => exact h
  | cons rule rules ih => exact ih (h.extend rule.1 rule.2)

end Grammar

namespace Interpreter

variable {i : Interpreter}

/-- So does reading a file into it, however far that comes. -/
theorem built_readGrammar (h : i.grammar.Built) (view : Files.View) (path : String) :
    (i.readGrammar view path).state.grammar.Built := by
  simp only [readGrammar]
  exact h.load _ view path

/-- Inflecting what was read keeps a grammar built, as it only teaches rules. -/
theorem built_inflect (h : i.grammar.Built) : i.inflect.1.grammar.Built := by
  unfold inflect
  split
  · exact h.teach _
  · exact h

/-- So does adding the rules of a name. -/
theorem built_answerTo (h : i.grammar.Built) (name : String) : (i.answerTo name).1.grammar.Built := by
  unfold answerTo
  split
  · exact h
  · exact h.extend _ _

/-- Starting switches on the head of a sentence and does nothing else to the grammar. -/
theorem grammar_start (i : Interpreter) (top path : String) :
    (i.start top path).1.grammar = (i.grammar.enable (some top)).1 := by
  unfold start
  split <;> (rename_i heq; rw [heq])

/-- Loading a grammar is all of these together. Where the file cannot be read, nothing is inflected
or added, and what was read of it stays. -/
theorem built_loadGrammar (h : i.grammar.Built) (view : Files.View) (path top name : String) :
    (i.loadGrammar view path top name).state.grammar.Built := by
  have hread := built_readGrammar h view path
  unfold loadGrammar
  simp only
  split
  · exact hread
  · exact hread
  · have hready := built_answerTo (built_inflect hread) name
    rw [grammar_start]
    exact hready.enable _

/-- Teaching words is learning them one after the other. -/
theorem state_addWords (i : Interpreter) (category : String) (words : List String) :
    (i.addWords category words).state = words.foldl (fun i word => (i.learn category word).1) i :=
  (List.foldl_hom Prod.fst fun _ _ => rfl).symm

/-- Adding words to a category adds a rule for each. -/
theorem built_addWords (h : i.grammar.Built) (category : String) (words : List String) :
    (i.addWords category words).state.grammar.Built := by
  rw [state_addWords]
  induction words generalizing i with
  | nil => exact h
  | cons word words ih => exact ih (h.extend category word)

/-- Rejecting a guess unlearns it and takes it off the list. -/
theorem state_rejectGuess (i : Interpreter) (g : Guess) :
    (i.rejectGuess g).state
      = { (i.unlearn g.category g.word).1 with provisional := i.provisional.erase g } := by
  unfold rejectGuess
  simp only
  split <;> rfl

/-- Every call keeps a grammar that was built one that was. -/
theorem built_run (h : i.grammar.Built) (c : Call) : (c.run i).grammar.Built := by
  cases c with
  | addWords category words => exact built_addWords h category words
  | interpret stamp text awake confidence =>
    cases text with
    | none => exact h
    | some text => exact (effect_interpret h stamp text awake confidence).built h
  | acceptGuess g => exact h
  | rejectGuess g =>
    show (i.rejectGuess g).state.grammar.Built
    rw [state_rejectGuess]
    exact h.retract g.category g.word

/-- So every front end that calls lead to has such a grammar, by induction on the calls. A fresh one
has an empty grammar, whatever its settings. -/
theorem Reached.built (h : Reached i) : i.grammar.Built := by
  induction h with
  | @start s i notes fresh =>
    simp only [ofSettings] at fresh
    cases hbins : Vocabulary.ofBins s.bins s.substitute with
    | error e => simp [hbins, bind, Except.bind] at fresh
    | ok v =>
      simp only [hbins, bind, Except.bind, pure, Except.pure, Except.ok.injEq, Prod.mk.injEq] at fresh
      rw [← fresh.1]
      exact .empty s.dictation s.maxAlerts
  | loadGrammar _ view path top name ih => exact built_loadGrammar ih view path top name
  | call _ c ih => exact built_run ih c
  | grammar _ change ih => exact ih.change change
  | vocabulary _ _ ih => exact ih
  | parts _ _ _ _ ih => exact ih

/-! ## Utterances -/

/-- No stage of a turn stops it, whatever the text and the confidences: the trace has no error, its
steps are numbered from one, and they are those of the stages that the text calls for. -/
theorem interpret_completes (hreached : Reached i) (stamp : Stamp) (text : String) (awake : Bool)
    (conf : Option String) :
    let confidence : Confidence := conf.elim .absent .text
    let o := i.interpret stamp (some text) awake confidence
    let source := i.settled text confidence
    ∃ result trace, o.result = .ok result ∧ o.state.lastTrace = some trace ∧ trace.error = none
      ∧ trace.steps.map (·.id) = List.range' 1 trace.steps.length
      ∧ trace.stepNames = ["Attention", "Parse"]
        ++ (if i.grammar.parses text confidence then [] else ["TypoFix"])
        ++ (if !i.grammar.parses source confidence && i.settings.guessing
            && (tokenize true source).any fun word => !i.vocabulary.known word
          then ["Guess"] else [])
        ++ ["AssocList"]
        ++ (if result.isSome then ["SpeechAct"] else []) := by
  intro confidence o source
  -- what the stages record is followed from the beginning of the turn to its end
  obtain ⟨result, trace, hresult, htrace, hrecords⟩ :=
    exists_records_interpret hreached.built stamp text awake (Confidence.readable_elim_text conf)
  exact ⟨result, trace, hresult, htrace, hrecords.error, hrecords.ids, hrecords.names⟩

/-- A front end that knows nothing. -/
def fresh : Interpreter :=
  { settings := { bins := 2, inflecting := false }
    irregulars := { capacity := 100 }
    grammar := {}
    vocabulary := ⟨[[], []], Nat.le_refl 2, false, [], "", ""⟩ }

theorem reached_fresh : Reached fresh := by
  have hfresh : ofSettings { bins := 2, inflecting := false } = .ok (_, _) := rfl
  exact .start hfresh

/-- A text of one unknown word goes through all the stages that can be tried, in a front end without
rules. -/
theorem interpret_completes_tall :
    ∃ result trace,
      (fresh.interpret ⟨"", ""⟩ (some "tall") true .absent).result = .ok result
      ∧ (fresh.interpret ⟨"", ""⟩ (some "tall") true .absent).state.lastTrace = some trace
      ∧ trace.error = none
      ∧ trace.stepNames = ["Attention", "Parse", "TypoFix", "Guess", "AssocList"]
        ++ (if result.isSome then ["SpeechAct"] else []) := by
  obtain ⟨result, trace, hresult, htrace, herror, _, hnames⟩ :=
    interpret_completes reached_fresh ⟨"", ""⟩ "tall" true none
  have hnever := Grammar.parses_of_forall_ne_top reached_fresh.built.coherent (by simp [fresh])
  have hmended : mended fresh.vocabulary "tall" = "tall" := by decide +kernel
  have hsettled : ∀ conf, fresh.settled "tall" conf = "tall" := by
    intro conf
    rw [settled, hnever, if_neg Bool.false_ne_true, hmended]
  have hunknown : ((tokenize true "tall").any fun word => !fresh.vocabulary.known word) = true := by
    decide +kernel
  refine ⟨result, trace, hresult, htrace, herror, ?_⟩
  rw [hnames, hsettled, hnever, hunknown]
  rfl

end Interpreter

end Utterance
