import Utterance.Proofs.Grammar.Terminals
import Utterance.Proofs.Interpreter.Reached

/-!
# Guesses that are taken back

Guesses that do not help are taken back at the end of a turn. A guess is about a word that is not
known, so if all words of the grammar are known nothing else goes with it, and the front end is as it
was before. But the guess may be a rule that was taught while its word was not known: then the rule is
taken back with the guess.
-/

namespace Utterance

namespace Grammar

variable {g : Grammar} {guesses : List Guess} {v : Vocabulary} {p : Production}

/-- A production is unlike all guesses if no guess can be made about its only word. -/
theorem spared_of_known (hapt : ∀ q ∈ guesses, q.Apt v)
    (hknown : ∀ category ∈ Guess.categories, Text.lower p.head = Text.lower category →
      ∀ t, p.steps = wordSteps t → t ≠ Step.wildcard →
      ∀ word, Text.lower word = Text.lower t → v.known word = true) :
    spared guesses p = true := by
  rw [spared, List.all_eq_true]
  intro q hq
  rw [bne_iff_ne]
  intro hkey
  -- such a guess would be about a word that is known
  obtain ⟨hhead, t, hsteps, hlower⟩ := exists_of_key_eq_wordKey hkey
  have hwild : t ≠ Step.wildcard := by
    rintro rfl
    apply Text.lower_ne_wildcard (hapt q hq).sharp_not_mem
    rw [← hlower]
    decide
  have hq' := hknown q.category (hapt q hq).category hhead t hsteps hwild q.word hlower.symm
  rw [(hapt q hq).unknown] at hq'
  cases hq'

/-- Guesses are rules that may not start a sentence. -/
theorem forall_ne_top_extendAll (h : g.Built) (hplain : ∀ q ∈ guesses, Plain q.word)
    (htop : ∀ p ∈ g.productions.toList, p.status ≠ .top) :
    ∀ p ∈ (g.extendAll guesses).productions.toList, p.status ≠ .top := by
  obtain ⟨new, hnew, hrules⟩ := productions_extendAll h hplain
  intro p hp
  rw [hnew] at hp
  rcases List.mem_append.1 hp with hp | hp
  · exact htop p hp
  · obtain ⟨_, _, _, _, hstatus⟩ := hrules p hp
    rw [hstatus]
    decide

end Grammar

namespace Interpreter

variable {i : Interpreter} {text : String} {conf : Confidence}

/-- Without a rule that may start a sentence all guesses are taken back: a guess makes a rule that
is active, and such a rule does not start one. -/
theorem drops_of_forall_ne_top (hbuilt : i.grammar.Built)
    (htop : ∀ p ∈ i.grammar.productions.toList, p.status ≠ .top)
    (hguessing : i.settings.guessing = true)
    (hunknown : ((tokenize true (mended i.vocabulary text)).any
      fun word => !i.vocabulary.known word) = true)
    (hconf : conf.Readable) (stamp : Stamp) (awake : Bool) :
    Drops (i.vocabulary.guess (mended i.vocabulary text)).2 i
        (i.interpret stamp (some text) awake conf).state
      ∧ (i.interpret stamp (some text) awake conf).state.analysis.candidates = [] := by
  have hnever := Grammar.parses_of_forall_ne_top hbuilt.coherent htop
  have hsettled : i.settled text conf = mended i.vocabulary text := by
    rw [settled, hnever, if_neg Bool.false_ne_true]
  have hventures : i.ventures text conf = true := by
    rw [ventures, hsettled, hnever, hguessing, hunknown]
    rfl
  cases effect_interpret hbuilt stamp text awake conf with
  | same quiet _ =>
    rw [quiet hconf] at hventures
    cases hventures
  | guessed _ guessed =>
    cases guessed with
    | kept found _ _ =>
      -- guesses cannot help, since none of them may start a sentence
      rw [Grammar.parses_of_forall_ne_top (hbuilt.extendAll _).coherent
        (Grammar.forall_ne_top_extendAll hbuilt (fun _ => plain_of_mem_guessesAbout) htop)] at found
      cases found
    | dropped _ drops candidates =>
      rw [guessesAbout, hsettled] at drops
      exact ⟨drops, candidates⟩

/-! ## One rule and one word -/

/-- A vocabulary with one word. -/
def oneWord : Vocabulary := (fresh.vocabulary.add "are").1

/-- It knows the first word of `are tall`, finds no misspelling in it and takes the second for a
property. -/
theorem guess_oneWord :
    tokenize true "are tall" = ["are", "tall"] ∧ mended oneWord "are tall" = "are tall"
      ∧ ["are", "tall"].any (fun word => !oneWord.known word) = true
      ∧ (oneWord.guess "are tall").2 = [⟨"tall", "HQ"⟩] := by
  decide +kernel

/-- A front end that was taught one expansion of a head and knows one word. -/
def taught (head expansion : String) : Interpreter :=
  { fresh with
    grammar := (fresh.grammar.extend head expansion).grammar
    vocabulary := oneWord }

/-- A front end that was taught one rule is one that calls lead to. -/
theorem reached_taught (head expansion : String) : Reached (taught head expansion) :=
  .vocabulary (.grammar reached_fresh (.extend head expansion)) (.add "are")

/-- That rule is its only one. -/
theorem productions_taught {head word : String} (hplain : Grammar.Plain word) :
    (taught head word).grammar.productions = #[⟨0, head, Grammar.wordSteps word, .active⟩] := by
  show (fresh.grammar.extend head word).grammar.productions = _
  rw [Grammar.grammar_extend, Grammar.productions_expand_plain (Grammar.tidy_of_isEmpty rfl rfl)
    hplain.nested hplain.sugarless (hplain.forms head) (by simp [fresh])]
  rfl

/-- It guesses that the unknown word of `are tall` is a property, and takes that back. -/
theorem drops_taught {head word : String} (hplain : Grammar.Plain word) :
    let last := ((taught head word).interpret ⟨"", ""⟩ (some "are tall") true .absent).state
    Drops [⟨"tall", "HQ"⟩] (taught head word) last ∧ last.analysis.candidates = [] := by
  have htop : ∀ p ∈ (taught head word).grammar.productions.toList, p.status ≠ .top := by
    rw [productions_taught hplain]
    simp
  obtain ⟨htokens, hmended, hany, hguess⟩ := guess_oneWord
  have hunknown : ((tokenize true (mended oneWord "are tall")).any
      fun word => !oneWord.known word) = true := by
    rw [hmended, htokens]
    exact hany
  have hdrops := drops_of_forall_ne_top (reached_taught head word).built htop rfl hunknown
    (Confidence.readable_elim_text none) ⟨"", ""⟩ true
  rw [show (taught head word).vocabulary = oneWord from rfl, hmended, hguess] at hdrops
  exact hdrops

theorem plain_are : Grammar.Plain "are" :=
  Grammar.plain_of_isWordPart (by decide) (by decide)

/-- The vocabulary knows the word in any case of its letters. -/
theorem known_of_lower_eq_are {word : String} (h : Text.lower word = Text.lower "are") :
    oneWord.known word = true := by
  -- its length differs from that of its lower case by a factor of two at most, so it goes to the
  -- second bin
  have hlength : 3 ≤ 2 * word.length := by
    have hle := Text.length_lower_le word
    rw [h] at hle
    exact hle
  have hbin : oneWord.binIndex word = 1 := by
    simp only [Vocabulary.binIndex, Vocabulary.binOf, Vocabulary.binCount,
      show oneWord.bins.length = 2 by decide]
    omega
  rw [Vocabulary.known_iff, hbin, h]
  refine ⟨?_, .inr (by decide)⟩
  rintro rfl
  simp at hlength

/-! ## Everything is as it was -/

/-- If every word of the grammar is known in any case, an utterance without a derivation leaves the
rules with their numbers, order and statuses, the attention phrases, the known words with their order
and the undecided guesses as they were. -/
theorem interpret_restores (hbuilt : i.grammar.Built)
    (hknown : ∀ t ∈ i.grammar.terminals, t ≠ Step.wildcard →
      ∀ word, Text.lower word = Text.lower t → i.vocabulary.known word = true)
    (stamp : Stamp) (text : String) (awake : Bool) (conf : Confidence)
    (hlost : (i.interpret stamp (some text) awake conf).state.analysis.candidates = []) :
    let last := (i.interpret stamp (some text) awake conf).state
    last.grammar.productions = i.grammar.productions
      ∧ last.grammar.alerts = i.grammar.alerts
      ∧ last.vocabulary.bins = i.vocabulary.bins
      ∧ last.provisional = i.provisional := by
  cases effect_interpret hbuilt stamp text awake conf with
  | same _ same =>
    refine ⟨?_, ?_, same.bins, same.provisional⟩
    · rw [same.grammar]
    · rw [same.grammar]
  | guessed _ guessed =>
    cases guessed with
    -- guesses that stay have given a candidate
    | kept _ _ candidates => exact absurd hlost candidates
    | dropped _ drops _ =>
      have hplain : ∀ q ∈ i.guessesAbout text conf, Grammar.Plain q.word :=
        fun _ => plain_of_mem_guessesAbout
      have hcategory : ∀ q ∈ i.guessesAbout text conf, q.category ≠ Grammar.attention :=
        fun _ hq => (apt_of_mem_guessesAbout hq).category_ne_attention
      -- no rule is like a guess, whose word is not known
      have hspared : i.grammar.productions.toList.filter (Grammar.spared (i.guessesAbout text conf))
          = i.grammar.productions.toList := by
        apply List.filter_eq_self.2
        intro p hp
        apply Grammar.spared_of_known fun _ => apt_of_mem_guessesAbout
        intro _ _ _ t hsteps
        apply hknown t
        rw [Grammar.mem_terminals_iff]
        exact ⟨p, hp, by rw [hsteps]; exact List.mem_singleton.2 rfl⟩
      refine ⟨?_, ?_, drops.bins, drops.provisional⟩
      · apply Array.toList_inj.1
        rw [drops.grammar, Grammar.productions_retractAll_extendAll hbuilt hplain, hspared,
          hbuilt.coherent.renumber_eq]
      · rw [drops.grammar, Grammar.alerts_retractAll hcategory,
          Grammar.alerts_extendAll hcategory]

/-- The guess about the second word finds no derivation, and the front end has only its own rule and
word again. -/
theorem interpret_restores_are_tall :
    let first := taught "HQ" "are"
    let last := (first.interpret ⟨"", ""⟩ (some "are tall") true .absent).state
    (∀ t ∈ first.grammar.terminals, t ≠ Step.wildcard →
        ∀ word, Text.lower word = Text.lower t → first.vocabulary.known word = true)
      ∧ last.analysis.candidates = []
      ∧ last.grammar.productions = #[⟨0, "HQ", [⟨"are", false⟩], .active⟩]
      ∧ last.vocabulary.bins = [[], ["are"]] := by
  intro first last
  have hlost := (@drops_taught "HQ" "are" plain_are).2
  -- the one terminal of the grammar is the word that was taught
  have hknown : ∀ t ∈ first.grammar.terminals, t ≠ Step.wildcard →
      ∀ word, Text.lower word = Text.lower t → first.vocabulary.known word = true := by
    intro t ht _ word hword
    rw [Grammar.terminals, productions_taught plain_are] at ht
    rw [List.mem_singleton.1 ht] at hword
    exact known_of_lower_eq_are hword
  obtain ⟨hproductions, _, hbins, _⟩ := interpret_restores (reached_taught "HQ" "are").built hknown
    ⟨"", ""⟩ "are tall" true .absent hlost
  refine ⟨hknown, hlost, ?_, ?_⟩
  · rw [hproductions, productions_taught plain_are]
    rfl
  · rw [hbins]
    decide

/-! ## Rules that were taught -/

/-- A rule is still there after an utterance, with its status, unless it is a rule for one word in a
category that guesses have, and a word like it is not known. -/
theorem interpret_keeps_rule (hreached : Reached i) (stamp : Stamp) (text : String) (awake : Bool)
    (conf : Confidence) {p : Production} (hp : p ∈ i.grammar.productions.toList)
    (hknown : ∀ category ∈ Guess.categories, Text.lower p.head = Text.lower category →
      ∀ t, p.steps = [⟨t, false⟩] → t ≠ Step.wildcard →
      ∀ word, Text.lower word = Text.lower t → i.vocabulary.known word = true) :
    ∃ id, { p with id }
      ∈ (i.interpret stamp (some text) awake conf).state.grammar.productions.toList := by
  have hbuilt := hreached.built
  have hplain : ∀ q ∈ i.guessesAbout text conf, Grammar.Plain q.word :=
    fun _ => plain_of_mem_guessesAbout
  cases effect_interpret hbuilt stamp text awake conf with
  | same _ same =>
    rw [same.grammar]
    exact ⟨p.id, hp⟩
  | guessed _ guessed =>
    cases guessed with
    | kept _ keeps _ =>
      -- guesses are learnt as rules after those that were there
      obtain ⟨new, hnew, _⟩ := Grammar.productions_extendAll hbuilt hplain
      rw [keeps.grammar, hnew]
      exact ⟨p.id, List.mem_append_left _ hp⟩
    | dropped _ drops _ =>
      -- only a rule like a guess goes, and the others move up
      rw [drops.grammar, Grammar.productions_retractAll_extendAll hbuilt hplain]
      apply Grammar.mem_renumberFrom
      apply List.mem_filter.2
      exact ⟨hp, Grammar.spared_of_known (fun _ => apt_of_mem_guessesAbout) hknown⟩

/-- A guess in the category of the rule is taken back, and the rule stays. -/
theorem interpret_keeps_rule_are :
    let first := taught "HQ" "are"
    let last := (first.interpret ⟨"", ""⟩ (some "are tall") true .absent).state
    ⟨0, "HQ", [⟨"are", false⟩], .active⟩ ∈ first.grammar.productions.toList
      ∧ ∃ id, ⟨id, "HQ", [⟨"are", false⟩], .active⟩ ∈ last.grammar.productions.toList := by
  intro first last
  have hp : ⟨0, "HQ", [⟨"are", false⟩], .active⟩ ∈ first.grammar.productions.toList := by
    rw [productions_taught plain_are]
    exact List.mem_singleton.2 rfl
  refine ⟨hp, interpret_keeps_rule (reached_taught "HQ" "are") ⟨"", ""⟩ "are tall" true .absent hp ?_⟩
  intro _ _ _ t hsteps _ word hword
  simp only [List.cons.injEq, Step.mk.injEq] at hsteps
  rw [← hsteps.1.1] at hword
  exact known_of_lower_eq_are hword

/-- A rule that was taught while its word was not known is taken back with a guess that is the same
rule. -/
theorem interpret_loses_rule :
    let first := taught "HQ" "tall"
    Reached first
      ∧ first.grammar.productions = #[⟨0, "HQ", [⟨"tall", false⟩], .active⟩]
      ∧ (first.interpret ⟨"", ""⟩ (some "are tall") true .absent).state.grammar.productions = #[] := by
  have hplain : Grammar.Plain "tall" := Grammar.plain_of_isWordPart (by decide) (by decide)
  refine ⟨reached_taught "HQ" "tall", productions_taught hplain, ?_⟩
  apply Array.toList_inj.1
  rw [(drops_taught hplain).1.grammar, Grammar.productions_retractAll_extendAll
    (reached_taught "HQ" "tall").built (by simpa using hplain), productions_taught hplain]
  decide

end Interpreter

end Utterance
