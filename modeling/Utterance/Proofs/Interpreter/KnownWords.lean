import Utterance.Proofs.Grammar.Terminals
import Utterance.Proofs.Interpreter.Reached

/-!
# Words of the grammar that are known

Loading a grammar makes all its words known. Later calls change the rules and the known words apart
from each other. A word of the grammar stays known unless it came with a phrase, which is known only as
a whole, or a guess about it was rejected, which is forgotten even if another rule has the word.
-/

namespace Utterance

/-! ## Files without rules -/

namespace Grammar

/-- A file without lines is opened and adds nothing. -/
theorem load_of_lines_eq_nil {g : Grammar} {irregulars : Option Irregulars} {view : Files.View}
    {path : String} {p : Path} {content : Content} (hpath : filePath path = .ok p)
    (hread : (view.after []).read (.ofPath p) = .ok content) (hlines : content.lines = .ok []) :
    ∃ notes, g.load irregulars view path
      = ⟨({ g with path := some (g.path.getD p) }, irregulars), .ok true, notes⟩ := by
  have hfile : loadFile view [] p { grammar := { g with path := some (g.path.getD p) }, irregulars }
      = _ := loadFile_of_read hread hlines
  -- there is one note still, which tells how many lines the file has
  refine ⟨[Topic.loading.entry ("Loading grammar " ++ p.text ++ " ("
    ++ toString ([] : List String).length ++ " lines)")], ?_⟩
  unfold load
  rw [hpath]
  simp only
  rw [hfile, loadLines]
  rfl

end Grammar

namespace Interpreter

variable {i j : Interpreter} {t : String}

/-! ## What a call does to a word -/

/-- Whether a word is known if it is one of the grammar. -/
def Knows (i : Interpreter) (t : String) : Prop := t ∈ i.grammar.terminals → i.vocabulary.known t = true

/-- Whether a call may leave a word of the grammar unknown: a phrase was taught that stands for it and
is not the word itself, or a guess about it was rejected. -/
def Call.Unsettles (t : String) : Call → Prop
  | .addWords _ words => ∃ word ∈ words, word ≠ t ∧ Grammar.Brings word t
  | .interpret .. => False
  | .acceptGuess _ => False
  | .rejectGuess g => Text.lower t = Text.lower g.word

/-- A rule that is learnt takes no word from the vocabulary, and the word that it brings is learnt
with it. The exception is a word that is stored as another than the one that the rule has. -/
theorem Knows.learn (h : i.Knows t) (hbuilt : i.grammar.Built) (hwild : t ≠ Step.wildcard)
    {word : String} (hword : ¬(word ≠ t ∧ Grammar.Brings word t)) (category : String) :
    (i.learn category word).1.Knows t := by
  intro ht
  have hnew : t ∈ (i.grammar.extend category word).grammar.terminals := ht
  show (i.vocabulary.add word).1.known t = true
  by_cases heq : word = t
  · -- the word itself was taught, so it was added
    rw [heq]
    exact Vocabulary.known_add
      ((hbuilt.extend category word).tidy.ne_empty_of_mem_terminals hnew) hwild
  · -- what was taught does not stand for the word, so a rule had it before
    have hold := (Grammar.mem_terminals_of_extend hbuilt.tidy hnew).resolve_right
      fun hbrings => hword ⟨heq, hbrings⟩
    exact (Vocabulary.grown_refl i.vocabulary [word]).add (List.mem_singleton.2 rfl) |>.known (h hold)

/-- The same of words that are added to a category. -/
theorem Knows.addWords (h : i.Knows t) (hbuilt : i.grammar.Built) (hwild : t ≠ Step.wildcard)
    {category : String} {words : List String} (hcall : ¬(Call.addWords category words).Unsettles t) :
    (i.addWords category words).state.Knows t := by
  rw [state_addWords]
  induction words generalizing i with
  | nil => exact h
  | cons word words ih =>
    refine ih (h.learn hbuilt hwild ?_ category) (hbuilt.extend category word) ?_
    · exact fun hbrings => hcall ⟨word, List.mem_cons_self .., hbrings⟩
    · rintro ⟨other, hother, hbrings⟩
      exact hcall ⟨other, List.mem_cons_of_mem _ hother, hbrings⟩

/-- A rejected guess is forgotten, which unsettles only the word that was guessed. -/
theorem Knows.rejectGuess (h : i.Knows t) (hbuilt : i.grammar.Built) {g : Guess}
    (hcall : ¬(Call.rejectGuess g).Unsettles t) : (i.rejectGuess g).state.Knows t := by
  rw [state_rejectGuess]
  intro ht
  have hkept : t ∈ (i.grammar.retract g.category g.word).grammar.terminals := ht
  have hold := Grammar.mem_terminals_of_renumber_filter
    (Grammar.productions_retract hbuilt.coherent g.category g.word) hkept
  exact Vocabulary.known_remove (h hold) hcall

/-- A turn keeps what is known: guesses that stay bring their words, and those that do not stay
leave the rules and the words as they were. -/
theorem Knows.effect (h : i.Knows t) (hbuilt : i.grammar.Built) {text : String} {conf : Confidence}
    (heffect : Effect i text conf j) : j.Knows t := by
  have hplain : ∀ q ∈ i.guessesAbout text conf, Grammar.Plain q.word :=
    fun _ => plain_of_mem_guessesAbout
  intro ht
  cases heffect with
  | same _ same =>
    rw [same.grammar] at ht
    rw [Vocabulary.known_congr same.bins]
    exact h ht
  | guessed _ guessed =>
    cases guessed with
    | kept _ keeps _ =>
      obtain ⟨new, hnew, hrules⟩ := Grammar.productions_extendAll hbuilt hplain
      obtain ⟨p, hp, hstep⟩ := Grammar.mem_terminals_iff.1 ht
      rw [keeps.grammar, hnew] at hp
      rcases List.mem_append.1 hp with hp | hp
      · -- learning guesses takes no word away
        exact keeps.remembered t (h (Grammar.mem_terminals_iff.2 ⟨p, hp, hstep⟩))
      · -- the word of a new rule is the one that was guessed
        obtain ⟨q, hq, _, hsteps, _⟩ := hrules p hp
        rw [hsteps] at hstep
        cases List.mem_singleton.1 hstep
        exact keeps.known q hq
    | dropped _ drops _ =>
      rw [drops.grammar] at ht
      rw [Vocabulary.known_congr drops.bins]
      exact h (Grammar.mem_terminals_of_renumber_filter
        (Grammar.productions_retractAll_extendAll hbuilt hplain) ht)

/-- One call keeps a word known, unless it unsettles the word. -/
theorem Knows.run (h : i.Knows t) (hbuilt : i.grammar.Built) (hwild : t ≠ Step.wildcard) {c : Call}
    (hcall : ¬c.Unsettles t) : (c.run i).Knows t := by
  cases c with
  | addWords category words => exact h.addWords hbuilt hwild hcall
  | interpret stamp text awake confidence =>
    cases text with
    | none => exact h
    | some text => exact h.effect hbuilt (effect_interpret hbuilt stamp text awake confidence)
  | acceptGuess g => exact h
  | rejectGuess g => exact h.rejectGuess hbuilt hcall

/-- No call unsettles the word, so it stays known through all of them. -/
theorem Knows.foldl_run (h : i.Knows t) (hbuilt : i.grammar.Built) (hwild : t ≠ Step.wildcard)
    {calls : List Call} (hcalls : ∀ c ∈ calls, ¬c.Unsettles t) :
    (calls.foldl Call.run i).Knows t := by
  induction calls generalizing i with
  | nil => exact h
  | cons c calls ih =>
    apply ih (h.run hbuilt hwild (hcalls c (List.mem_cons_self ..))) (built_run hbuilt c)
    exact fun other hother => hcalls other (List.mem_cons_of_mem _ hother)

/-! ## Loading -/

/-- Starting with a head does not concern the vocabulary. -/
theorem vocabulary_start (i : Interpreter) (top path : String) :
    (i.start top path).1.vocabulary = i.vocabulary := by
  unfold start
  split <;> rfl

/-- A grammar that could be loaded is harvested before a rule is allowed to start a sentence. So
whatever the file, the inflection and the name have added, its words are in the vocabulary then. -/
theorem exists_ready_of_loadGrammar (hbuilt : i.grammar.Built) {view : Files.View}
    {path top name : String} {n : Nat}
    (hload : (i.loadGrammar view path top name).result = .ok (some n)) :
    ∃ (ready : Interpreter) (rule : String), ready.grammar.Built
      ∧ (i.loadGrammar view path top name).state = (ready.harvest.1.start rule path).1 := by
  unfold loadGrammar at hload ⊢
  simp only at hload ⊢
  split at hload
  · cases hload
  · cases hload
  · exact ⟨_, _, built_answerTo (built_inflect (built_readGrammar hbuilt view path)) name, rfl⟩

/-- A grammar that was loaded has only known words. -/
theorem knows_loadGrammar (hbuilt : i.grammar.Built) {view : Files.View} {path top name : String}
    {n : Nat} (hload : (i.loadGrammar view path top name).result = .ok (some n))
    (hwild : t ≠ Step.wildcard) : (i.loadGrammar view path top name).state.Knows t := by
  obtain ⟨ready, rule, hready, hstate⟩ := exists_ready_of_loadGrammar hbuilt hload
  rw [hstate]
  intro ht
  rw [grammar_start] at ht
  have hword : t ∈ ready.grammar.terminals := Grammar.mem_terminals_of_enable ht
  rw [vocabulary_start]
  exact Vocabulary.known_harvest hword (hready.tidy.ne_empty_of_mem_terminals hword) hwild

/-- A file without lines is read by noting its name. -/
theorem readGrammar_of_lines_eq_nil {i : Interpreter} {view : Files.View} {path : String} {p : Path}
    {content : Content} (hpath : Grammar.filePath path = .ok p)
    (hread : (view.after []).read (.ofPath p) = .ok content) (hlines : content.lines = .ok []) :
    ∃ notes, i.readGrammar view path
      = ⟨{ i with grammar := { i.grammar with path := some (i.grammar.path.getD p) } }, .ok true,
        notes⟩ := by
  obtain ⟨notes, hload⟩ := @Grammar.load_of_lines_eq_nil i.grammar
    (if i.linked then some i.irregulars else none) view path p content hpath hread hlines
  have hirregulars : (if i.linked then some i.irregulars else none).getD i.irregulars = i.irregulars := by
    split <;> rfl
  exact ⟨notes, by simp only [readGrammar, hload, hirregulars]⟩

/-! ## Conversations -/

/-- After a grammar was loaded, whatever the calls, a word of the grammar is known unless one of them
unsettled it. -/
theorem known_of_calls (hreached : Reached i) {view : Files.View} {path top name : String} {n : Nat}
    (hload : (i.loadGrammar view path top name).result = .ok (some n)) (calls : List Call)
    (ht : t ∈ (calls.foldl Call.run (i.loadGrammar view path top name).state).grammar.terminals)
    (hwild : t ≠ Step.wildcard) (hcalls : ∀ c ∈ calls, ¬c.Unsettles t) :
    (calls.foldl Call.run (i.loadGrammar view path top name).state).vocabulary.known t = true := by
  have hknows := knows_loadGrammar hreached.built hload hwild
  exact hknows.foldl_run (built_loadGrammar hreached.built view path top name) hwild hcalls ht

/-- A file without lines. -/
def blankFile : Files.View := .still { entries := [(["facts.sgm"], .text "")] }

/-- The front end after a grammar without rules was loaded. -/
def blank : Outcome Interpreter (Option Nat) := fresh.loadGrammar blankFile "facts.sgm" "" ""

/-- An empty grammar file loads, and leaves no rules and no words. -/
theorem blank_spec : (∃ n, blank.result = .ok (some n)) ∧ blank.state.grammar.productions = #[]
    ∧ blank.state.vocabulary.bins = [[], []] := by
  have hpath : Grammar.filePath "facts.sgm" = .ok (Path.ofString "facts.sgm") := rfl
  have hread : (blankFile.after []).read (.ofPath (Path.ofString "facts.sgm")) = .ok (.text "") := rfl
  obtain ⟨notes, hread⟩ := @readGrammar_of_lines_eq_nil fresh _ _ _ _ hpath hread rfl
  unfold blank loadGrammar
  simp only [hread, grammar_start, vocabulary_start]
  exact ⟨⟨_, rfl⟩, Array.map_empty, rfl⟩

theorem built_blank : blank.state.grammar.Built := built_loadGrammar (.empty 5 10) _ _ _ _

/-- The rules after a plain line was taught to a grammar without rules. -/
theorem productions_extend_blank {head line : String} {steps : List Step}
    (hnested : Sugar.isNested line.toList = true) (hplain : line.toList.any Sugar.isSugar = false)
    (hforms : Grammar.Forms head (Text.words line) steps) :
    (blank.state.grammar.extend head line).grammar.productions = #[⟨0, head, steps, .active⟩] := by
  have hnone := blank_spec.2.1
  rw [Grammar.grammar_extend, Grammar.productions_expand_plain built_blank.tidy hnested hplain hforms
    (by simp [hnone]), hnone]
  rfl

/-- A word that was added and whose guess was accepted is known. -/
theorem known_of_calls_tall :
    let last := [Call.addWords "HQ" ["tall"], Call.acceptGuess ⟨"tall", "HQ"⟩].foldl Call.run blank.state
    "tall" ∈ last.grammar.terminals ∧ last.vocabulary.known "tall" = true := by
  intro last
  obtain ⟨n, hload⟩ := blank_spec.1
  have hproductions : last.grammar.productions = #[⟨0, "HQ", [⟨"tall", false⟩], .active⟩] :=
    productions_extend_blank (by decide) (by decide) (Grammar.forms_iff.2 ⟨by decide, by decide⟩)
  have ht : "tall" ∈ last.grammar.terminals := by
    rw [Grammar.terminals, hproductions]
    exact List.mem_singleton.2 rfl
  refine ⟨ht, known_of_calls reached_fresh hload _ ht (by decide) ?_⟩
  intro c hc
  -- the word is taught as it is, so neither call leaves one of its spellings unknown
  rcases List.mem_cons.1 hc with rfl | hc
  · rintro ⟨word, hword, hne, _⟩
    exact hne (List.mem_singleton.1 hword)
  · rw [List.mem_singleton.1 hc]
    exact id

theorem known_blank (word : String) :
    blank.state.vocabulary.known word = fresh.vocabulary.known word :=
  Vocabulary.known_congr blank_spec.2.2 word

/-- The words of a phrase are not known on their own: what is added is the phrase as a whole. -/
theorem unknown_of_phrase :
    let last := (blank.state.addWords "HQ" ["very tall"]).state
    "very" ∈ last.grammar.terminals ∧ last.vocabulary.known "very" = false := by
  intro last
  have hproductions : last.grammar.productions
      = #[⟨0, "HQ", [⟨"very", false⟩, ⟨"tall", false⟩], .active⟩] :=
    productions_extend_blank (by decide) (by decide) (Grammar.forms_iff.2 ⟨by decide, by decide⟩)
  constructor
  · rw [Grammar.mem_terminals_iff, hproductions]
    exact ⟨_, List.mem_singleton.2 rfl, List.mem_cons_self ..⟩
  · rw [← Bool.not_eq_true]
    intro hvery
    have hadd : (blank.state.vocabulary.add "very tall").1.known "very" = true := hvery
    -- what was not known before is known only if it is the phrase that was added
    rcases Vocabulary.known_of_known_add hadd with hknown | hlower
    · rw [known_blank] at hknown
      exact absurd hknown (by decide)
    · exact absurd hlower (by decide)

/-- A rejected guess is forgotten although another rule has its word. The vocabulary keeps a word
once, however many rules have it, and rejecting the guess takes it away. -/
theorem unknown_of_rejection :
    let first := (blank.state.addWords "HQ" ["tall"]).state
    let second := (first.addWords "AKO" ["tall"]).state
    let last := (second.rejectGuess ⟨"tall", "HQ"⟩).state
    "tall" ∈ last.grammar.terminals ∧ last.vocabulary.known "tall" = false := by
  intro first second last
  have hplain : Grammar.Plain "tall" := Grammar.plain_of_isWordPart (by decide) (by decide)
  have hbuilt : first.grammar.Built := built_blank.extend "HQ" "tall"
  have hfirst : first.grammar.productions = #[⟨0, "HQ", [⟨"tall", false⟩], .active⟩] :=
    productions_extend_blank hplain.nested hplain.sugarless (hplain.forms "HQ")
  have hsecond : second.grammar.productions
      = #[⟨0, "HQ", [⟨"tall", false⟩], .active⟩, ⟨1, "AKO", [⟨"tall", false⟩], .active⟩] := by
    show (first.grammar.extend "AKO" "tall").grammar.productions = _
    rw [Grammar.grammar_extend, Grammar.productions_expand_plain hbuilt.tidy hplain.nested
      hplain.sugarless (hplain.forms "AKO") (by rw [hfirst]; decide), hfirst]
    rfl
  have hstate : last = { (second.unlearn "HQ" "tall").1 with
      provisional := second.provisional.erase ⟨"tall", "HQ"⟩ } := state_rejectGuess _ _
  -- the rule under the other category keeps its terminal
  constructor
  · have hlast : last.grammar.productions.toList = [⟨0, "AKO", [⟨"tall", false⟩], .active⟩] := by
      rw [hstate]
      show (second.grammar.retract "HQ" "tall").grammar.productions.toList = _
      have hbuilt' : second.grammar.Built := hbuilt.extend "AKO" "tall"
      rw [hplain.productions_retract hbuilt'.coherent, hsecond]
      decide
    rw [Grammar.mem_terminals_iff, hlast]
    exact ⟨_, List.mem_singleton.2 rfl, List.mem_cons_self ..⟩
  · have hunknown : blank.state.vocabulary.known "tall" = false := by
      rw [known_blank]
      decide
    have hgrown : blank.state.vocabulary.Grown ["tall"] second.vocabulary :=
      ((Vocabulary.grown_refl _ _).add (List.mem_singleton.2 rfl)).add (List.mem_singleton.2 rfl)
    -- the word was added once, so one removal takes it out
    have hbins : last.vocabulary.bins = blank.state.vocabulary.bins := by
      rw [hstate]
      exact Vocabulary.bins_foldl_remove hgrown fun word hword => by
        rw [List.mem_singleton.1 hword]
        exact ⟨by decide, hunknown⟩
    rw [Vocabulary.known_congr hbins, hunknown]

/-- Two ways to leave a word of the grammar unknown: a phrase that is taught is put into the
vocabulary as one word, and rejecting a guess forgets a word that another rule still has. -/
theorem unknown_after_calls :
    let phrase := [Call.addWords "HQ" ["very tall"]].foldl Call.run blank.state
    let rejected := [Call.addWords "HQ" ["tall"], Call.addWords "AKO" ["tall"],
      Call.rejectGuess ⟨"tall", "HQ"⟩].foldl Call.run blank.state
    (∃ n, blank.result = .ok (some n))
      ∧ ("very" ∈ phrase.grammar.terminals ∧ phrase.vocabulary.known "very" = false)
      ∧ "tall" ∈ rejected.grammar.terminals ∧ rejected.vocabulary.known "tall" = false :=
  ⟨blank_spec.1, unknown_of_phrase, unknown_of_rejection⟩

end Interpreter

end Utterance
