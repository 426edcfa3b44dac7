import Utterance.Interpreter.Turn
import Utterance.Proofs.Interpreter.Guesses
import Utterance.Proofs.Parse

/-!
# What a turn does to a front end

A turn learns nothing but guesses about unknown words. They are made if the text has no derivation,
neither as it is given nor repaired, and they stay exactly if they lead to a derivation.
-/

namespace Utterance

/-! ## Confidences -/

namespace Confidence

/-- Whether confidences can be read, for sentences of any length. -/
def Readable (conf : Confidence) : Prop := ∀ n, ∃ read, conf.read n = .ok read

/-- Whether confidences can be read does not depend on the sentence. -/
theorem readable_or (conf : Confidence) : conf.Readable ∨ ∃ fault, ∀ n, conf.read n = .error fault := by
  cases conf with
  | absent => exact .inl fun _ => ⟨_, rfl⟩
  | text s => exact .inl fun _ => ⟨_, rfl⟩
  | other d =>
    by_cases hnothing : d.isNothing = true
    · exact .inl fun _ => ⟨_, by rw [read, if_pos hnothing]⟩
    · exact .inr ⟨_, fun _ => by rw [read, if_neg hnothing]⟩

/-- Confidences in a text can be read, whatever it is. -/
theorem readable_elim_text (conf : Option String) : (conf.elim absent text).Readable := by
  cases conf with
  | none => exact fun _ => ⟨_, rfl⟩
  | some s => exact fun _ => ⟨_, rfl⟩

end Confidence

/-! ## Texts with a derivation -/

namespace Grammar

/-- Whether a parse of a text finds a derivation. -/
def parses (g : Grammar) (text : String) (conf : Confidence) : Bool :=
  !(Analysis.parse g (.text text) conf).state.candidates.isEmpty

theorem parses_eq_false_iff {g : Grammar} {text : String} {conf : Confidence} :
    g.parses text conf = false ↔ (Analysis.parse g (.text text) conf).state.candidates = [] := by
  rw [parses, Bool.not_eq_false', List.isEmpty_iff]

/-- Without a rule that may start a sentence there is no derivation. -/
theorem parses_of_forall_ne_top {g : Grammar} (hg : g.Coherent)
    (h : ∀ p ∈ g.productions.toList, p.status ≠ .top) (text : String) (conf : Confidence) :
    g.parses text conf = false := by
  rw [parses_eq_false_iff]
  rcases Analysis.charted_or_uncharted hg (.text text) conf with hcharted | huncharted
  · -- a candidate covers the sentence with a rule that may start one
    rw [hcharted.candidates, List.eq_nil_iff_forall_not_mem]
    intro id hid
    obtain ⟨s, _, hcovers⟩ := Analysis.mem_covering.1 hid
    simp only [Analysis.covers, Bool.and_eq_true, Option.any_eq_true, beq_iff_eq] at hcovers
    obtain ⟨p, hp, htop⟩ := hcovers.2
    apply h p _ htop
    rw [Array.mem_toList_iff]
    exact Array.mem_of_getElem? hp
  · exact huncharted.candidates

end Grammar

namespace Interpreter

/-! ## What a turn guesses -/

/-- What a repair makes of a text; the text itself if there is nothing to repair. -/
def mended (v : Vocabulary) (text : String) : String :=
  match (v.repair (some text)).result with
  | .ok (some fixed) => fixed
  | _ => text

/-- The text that a turn goes on with: the one that was given if it has a derivation, and what a
repair makes of it otherwise. -/
def settled (i : Interpreter) (text : String) (conf : Confidence) : String :=
  if i.grammar.parses text conf then text else mended i.vocabulary text

/-- Whether a turn makes guesses: there is still no derivation, guesses are wanted, and an unknown word
is left. -/
def ventures (i : Interpreter) (text : String) (conf : Confidence) : Bool :=
  !i.grammar.parses (i.settled text conf) conf && i.settings.guessing
    && (tokenize true (i.settled text conf)).any fun word => !i.vocabulary.known word

/-- The guesses that a turn makes, if it makes any. -/
def guessesAbout (i : Interpreter) (text : String) (conf : Confidence) : List Guess :=
  (i.vocabulary.guess (i.settled text conf)).2

variable {i j k : Interpreter} {text source : String} {conf : Confidence} {guesses : List Guess}

/-- A guess is about a word that the vocabulary does not know, so taking the guess back takes back
all of it. -/
theorem apt_of_mem_guessesAbout {g : Guess} (h : g ∈ i.guessesAbout text conf) :
    g.Apt i.vocabulary :=
  Guess.apt_of_mem_guess h

theorem plain_of_mem_guessesAbout {g : Guess} (h : g ∈ i.guessesAbout text conf) :
    Grammar.Plain g.word :=
  (apt_of_mem_guessesAbout h).plain

/-! ## What it leaves behind -/

/-- A front end with the same settings, rules, words and undecided guesses. -/
structure SameStores (i j : Interpreter) : Prop where
  settings : j.settings = i.settings
  grammar : j.grammar = i.grammar
  bins : j.vocabulary.bins = i.vocabulary.bins
  provisional : j.provisional = i.provisional

theorem SameStores.refl (i : Interpreter) : SameStores i i := ⟨rfl, rfl, rfl, rfl⟩

/-- Stores that stay the same twice stay the same. -/
theorem SameStores.trans (h : SameStores i j) (h' : SameStores j k) : SameStores i k where
  settings := h'.settings.trans h.settings
  grammar := h'.grammar.trans h.grammar
  bins := h'.bins.trans h.bins
  provisional := h'.provisional.trans h.provisional

/-- A front end that has learnt guesses and waits for a decision on them. -/
structure Keeps (guesses : List Guess) (i j : Interpreter) : Prop where
  settings : j.settings = i.settings
  grammar : j.grammar = i.grammar.extendAll guesses
  remembered : ∀ word, i.vocabulary.known word = true → j.vocabulary.known word = true
  known : ∀ g ∈ guesses, j.vocabulary.known g.word = true
  provisional : j.provisional = i.provisional ++ guesses

/-- A front end that has learnt guesses and has taken them back. -/
structure Drops (guesses : List Guess) (i j : Interpreter) : Prop where
  settings : j.settings = i.settings
  grammar : j.grammar = (i.grammar.extendAll guesses).retractAll guesses
  bins : j.vocabulary.bins = i.vocabulary.bins
  provisional : j.provisional = i.provisional

/-- What a turn does before it learns anything may be left out of account. -/
theorem Keeps.of_same_left (h : SameStores i j) (hkeeps : Keeps guesses j k) : Keeps guesses i k where
  settings := hkeeps.settings.trans h.settings
  grammar := by rw [← h.grammar]; exact hkeeps.grammar
  remembered word hword := by
    apply hkeeps.remembered
    rw [Vocabulary.known_congr h.bins]
    exact hword
  known := hkeeps.known
  provisional := by rw [← h.provisional]; exact hkeeps.provisional

/-- So may what it does after that, as long as the stores stay the same. -/
theorem Keeps.of_same_right (hkeeps : Keeps guesses i j) (h : SameStores j k) : Keeps guesses i k where
  settings := h.settings.trans hkeeps.settings
  grammar := h.grammar.trans hkeeps.grammar
  remembered word hword := by
    rw [Vocabulary.known_congr h.bins]
    exact hkeeps.remembered word hword
  known g hg := by
    rw [Vocabulary.known_congr h.bins]
    exact hkeeps.known g hg
  provisional := h.provisional.trans hkeeps.provisional

/-- The same where the guesses are taken back. -/
theorem Drops.of_same_left (h : SameStores i j) (hdrops : Drops guesses j k) : Drops guesses i k where
  settings := hdrops.settings.trans h.settings
  grammar := by rw [← h.grammar]; exact hdrops.grammar
  bins := hdrops.bins.trans h.bins
  provisional := hdrops.provisional.trans h.provisional

/-- And of what comes after that. -/
theorem Drops.of_same_right (hdrops : Drops guesses i j) (h : SameStores j k) : Drops guesses i k where
  settings := h.settings.trans hdrops.settings
  grammar := h.grammar.trans hdrops.grammar
  bins := h.bins.trans hdrops.bins
  provisional := h.provisional.trans hdrops.provisional

/-- Learning guesses and putting them on the list of undecided ones is what keeping them means,
whatever analysis is left behind. -/
theorem keeps_learnAll (hapt : ∀ g ∈ guesses, g.Apt i.vocabulary) (analysis : Analysis) :
    Keeps guesses i
      { i.learnAll guesses with
        analysis, provisional := (i.learnAll guesses).provisional ++ guesses } := by
  rw [learnAll_eq]
  refine ⟨rfl, rfl, fun word hword => ?_, fun g hg => ?_, rfl⟩
  · exact (Vocabulary.grown_foldl_add (Vocabulary.grown_refl _ _) fun _ h => h).known hword
  · exact Vocabulary.known_foldl_add (List.mem_map_of_mem hg) (hapt g hg).ne_empty
      (hapt g hg).ne_wildcard

/-- Learning guesses and unlearning them is what dropping them means. The words come and go with the
rules, as none of them was known before. -/
theorem drops_unlearnAll (hapt : ∀ g ∈ guesses, g.Apt i.vocabulary) (analysis : Analysis) :
    Drops guesses i ({ i.learnAll guesses with analysis }.unlearnAll guesses) := by
  have hbins := bins_unlearnAll_learnAll hapt
  rw [unlearnAll_eq, learnAll_eq] at hbins ⊢
  exact ⟨rfl, rfl, hbins, rfl⟩

/-- What guesses about a text do: they stay exactly if they lead to a derivation. -/
inductive Guessed (i : Interpreter) (source : String) (conf : Confidence) (guesses : List Guess)
    (j : Interpreter) : Prop where
  | kept (found : (i.grammar.extendAll guesses).parses source conf = true)
      (keeps : Keeps guesses i j) (candidates : j.analysis.candidates ≠ [])
  | dropped (lost : (i.grammar.extendAll guesses).parses source conf = false)
      (drops : Drops guesses i j) (candidates : j.analysis.candidates = [])

/-- What was done before the guesses may be left out of account, since they depend on the stores
alone. -/
theorem Guessed.of_same_left (h : SameStores i j) (hguessed : Guessed j source conf guesses k) :
    Guessed i source conf guesses k := by
  cases hguessed with
  | kept found keeps candidates =>
    exact .kept (by rw [← h.grammar]; exact found) (keeps.of_same_left h) candidates
  | dropped lost drops candidates =>
    exact .dropped (by rw [← h.grammar]; exact lost) (drops.of_same_left h) candidates

/-- So may what is done after them, if the candidates stay what they are. -/
theorem Guessed.of_same_right (hguessed : Guessed i source conf guesses j) (h : SameStores j k)
    (hcandidates : k.analysis.candidates = j.analysis.candidates) :
    Guessed i source conf guesses k := by
  cases hguessed with
  | kept found keeps candidates =>
    exact .kept found (keeps.of_same_right h) (by rw [hcandidates]; exact candidates)
  | dropped lost drops candidates =>
    exact .dropped lost (drops.of_same_right h) (by rw [hcandidates]; exact candidates)

/-- Guesses are made only about a text that does not parse, be it as given or repaired. -/
theorem parses_eq_false_of_ventures (h : i.ventures text conf = true) :
    i.grammar.parses (i.settled text conf) conf = false := by
  simp only [ventures, Bool.and_eq_true, Bool.not_eq_true'] at h
  exact h.1.1

/-- What a turn can do to a front end: nothing, or what its guesses do. -/
inductive Effect (i : Interpreter) (text : String) (conf : Confidence) (j : Interpreter) : Prop where
  | same (quiet : conf.Readable → i.ventures text conf = false) (same : SameStores i j)
  | guessed (ventures : i.ventures text conf = true)
      (guessed : Guessed i (i.settled text conf) conf (i.guessesAbout text conf) j)

/-- What keeps the stores and the candidates does not change the effect of a turn. -/
theorem Effect.of_same_right (heffect : Effect i text conf j) (h : SameStores j k)
    (hcandidates : k.analysis.candidates = j.analysis.candidates) : Effect i text conf k := by
  cases heffect with
  | same quiet same => exact .same quiet (same.trans h)
  | guessed ventures guessed => exact .guessed ventures (guessed.of_same_right h hcandidates)

/-- A turn leaves behind a grammar that was built by adding rules and taking them away. -/
theorem Effect.built (h : i.grammar.Built) (heffect : Effect i text conf j) : j.grammar.Built := by
  cases heffect with
  | same _ same => rw [same.grammar]; exact h
  | guessed _ guessed =>
    cases guessed with
    | kept _ keeps _ => rw [keeps.grammar]; exact h.extendAll _
    | dropped _ drops _ => rw [drops.grammar]; exact (h.extendAll _).retractAll _

end Interpreter

end Utterance
