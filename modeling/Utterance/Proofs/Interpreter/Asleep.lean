import Utterance.Proofs.AssocList.Phrases
import Utterance.Proofs.Interpreter.Rejection

/-!
# Utterances that are ignored

A front end that is asleep ignores an utterance that does not call for attention, neither by its text
nor by the association list of its derivation. This is decided last, after typing errors were repaired
and guesses were made. So an ignored utterance leaves behind what a heard one does: guesses that led to
a derivation stay, and without any that did there is no trace of it.
-/

namespace Utterance

/-- Whether the association list of an analysis calls for attention. -/
def Analysis.calls (a : Analysis) (g : Grammar) (s : Settings) : Bool :=
  !a.candidates.isEmpty
    && (a.assocList g s.closing).result.toOption.any (Attention.inList · s.attention)

/-- Without candidates there is no association list to call for attention. -/
theorem Analysis.calls_of_candidates_eq_nil {a : Analysis} (h : a.candidates = []) (g : Grammar)
    (s : Settings) : a.calls g s = false := by
  rw [calls, h]
  rfl

namespace Interpreter

variable {i : Interpreter} {text : String} {conf : Confidence}

/-- Whether a turn makes guesses that lead to a derivation. -/
def helps (i : Interpreter) (text : String) (conf : Confidence) : Bool :=
  i.ventures text conf
    && (i.grammar.extendAll (i.guessesAbout text conf)).parses (i.settled text conf) conf

/-- The grammar that an utterance is understood with: that of the front end, with the guesses that
led to a derivation. -/
def grammarFor (i : Interpreter) (text : String) (conf : Confidence) : Grammar :=
  if i.helps text conf then i.grammar.extendAll (i.guessesAbout text conf) else i.grammar

theorem grammarFor_of_helps (h : i.helps text conf = true) :
    i.grammarFor text conf = i.grammar.extendAll (i.guessesAbout text conf) := if_pos h

theorem grammarFor_of_not_helps (h : i.helps text conf = false) : i.grammarFor text conf = i.grammar := by
  rw [grammarFor, h, if_neg Bool.false_ne_true]

/-- How an utterance is understood. -/
def understood (i : Interpreter) (text : String) (conf : Confidence) : Analysis :=
  (Analysis.parse (i.grammarFor text conf) (.text (i.settled text conf)) conf).state

/-- Whether an utterance calls for attention, by its text or by its association list. -/
def calls (i : Interpreter) (text : String) (conf : Confidence) : Bool :=
  Attention.inText text i.grammar.alerts i.settings.attention
    || (i.understood text conf).calls (i.grammarFor text conf) i.settings

namespace Turn

variable {start t t' : Turn} {names : List String}

/-! ## What a turn listens to -/

/-- A parse does not decide about attention. -/
theorem attention_parseSource (h : t.parseSource = .ok t') : t'.attention = t.attention := by
  obtain ⟨_, _, _, rfl⟩ := exists_of_parseSource h
  rfl

/-- Nor does the stage it belongs to. -/
theorem attention_parse (h : t.parse = .ok t') : t'.attention = t.attention := by
  obtain ⟨mid, hmid, h⟩ := exists_of_bind_eq_ok h
  cases h
  have hattention := attention_parseSource hmid
  exact hattention

/-- Nor does a repair. -/
theorem attention_mend (h : t.mend = .ok t') : t'.attention = t.attention := by
  unfold mend at h
  split at h
  · rcases (repair_cases t.interpreter.vocabulary t.text).2 with hnone | ⟨fixed, hfixed⟩
    · simp only [repair, note, write, hnone] at h
      cases h
      rfl
    · simp only [repair, note, write, hfixed] at h
      obtain ⟨mid, hmid, h⟩ := exists_of_bind_eq_ok h
      cases h
      have hattention := attention_parseSource hmid
      exact hattention
  · cases h
    rfl

/-- Trying guesses changes nothing of a turn but the front end, the candidates and the notes. -/
theorem exists_of_settle (h : (t.forGuesses learn).parseSource.map settle = .ok t') :
    ∃ interpreter candidates notes, t' = { t with interpreter, candidates, notes } := by
  obtain ⟨_, _, _, ⟨-, h⟩ | ⟨-, h⟩⟩ := settle_cases h
  · exact ⟨_, _, _, h⟩
  · exact ⟨_, _, _, h⟩

/-- Nor do guesses, and they leave the text as it is. -/
theorem attention_guess (h : t.guess = .ok t') : t'.attention = t.attention ∧ t'.source = t.source := by
  obtain ⟨tried, inputs, outputs, unknown, htried, -, rfl⟩ := exists_of_guess h
  rcases htried with ⟨-, rfl⟩ | htried
  · exact ⟨rfl, rfl⟩
  · obtain ⟨_, _, _, rfl⟩ := exists_of_settle htried
    exact ⟨rfl, rfl⟩

/-- So it is whether guesses are made or not. -/
theorem attention_venture (h : t.venture = .ok t') :
    t'.attention = t.attention ∧ t'.source = t.source := by
  unfold venture at h
  split at h
  · exact attention_guess h
  · cases h
    exact ⟨rfl, rfl⟩

/-- What the association list says counts unless every utterance is heard. Without a derivation
there is no list, and attention stays as it was. -/
theorem attention_readSlots (hcandidates : t.candidates = t.interpreter.analysis.candidates.length)
    (h : t.readSlots = .ok t') :
    t'.attention = (t.attention
      || t.interpreter.settings.attention != .always
        && t.interpreter.analysis.calls t.interpreter.grammar t.interpreter.settings) := by
  unfold readSlots at h
  split at h
  · rename_i hnone
    rw [hcandidates, List.length_eq_zero_iff] at hnone
    cases h
    rw [Analysis.calls_of_candidates_eq_nil hnone, Bool.and_false, Bool.or_false]
  · rename_i hsome
    rw [hcandidates, List.length_eq_zero_iff] at hsome
    simp only at h
    split at h
    · cases h
    · rename_i alist halist
      cases h
      rw [Analysis.calls, halist, List.isEmpty_eq_false_iff.2 hsome]
      -- when every utterance is heard the list is not looked at
      by_cases hmode : t.interpreter.settings.attention = .always
      · simp [hmode]
      · simp only [if_neg hmode, bne_iff_ne.2 hmode, Bool.true_and, Bool.not_false]
        rfl

/-- Asking for the root does not decide about it, either. -/
theorem attention_root {head : Option String} (h : t.root = .ok (head, t')) :
    t'.attention = t.attention := by
  obtain ⟨_, rfl⟩ := exists_of_root h
  rfl

/-- Only here the derivation has its say: with a mode that listens, attention is paid if it was
before or if the association list calls for it. -/
theorem attention_extract (hcandidates : t.candidates = t.interpreter.analysis.candidates.length)
    (h : t.extract = .ok t') :
    t'.attention = (t.attention
      || t.interpreter.settings.attention != .always
        && t.interpreter.analysis.calls t.interpreter.grammar t.interpreter.settings) := by
  obtain ⟨mid, hslots, h⟩ := exists_of_bind_eq_ok h
  obtain ⟨⟨head, last⟩, hroot, h⟩ := exists_of_bind_eq_ok h
  cases h
  have hread := @attention_readSlots (t.note .assocStep "Step 5: AssocList - extracting slots.") mid
    hcandidates hslots
  exact (attention_root hroot).trans hread

/-- A turn knows how many candidates its analysis has. -/
theorem candidates_eq (hstate : t.Parsed ∨ t.Lost) :
    t.candidates = t.interpreter.analysis.candidates.length := by
  rcases hstate with hparsed | hlost
  · rw [hparsed.candidates, hparsed.analysis]
  · rw [hlost.candidates, hlost.analysis]
    rfl

/-- A turn that was parsed with the grammar that an utterance is understood with has understood it. -/
theorem Parsed.analysis_eq (h : t.Parsed) (hgrammar : t.interpreter.grammar = i.grammarFor text conf)
    (hsource : t.source = i.settled text conf) (hconf : t.confidence = conf) :
    t.interpreter.analysis = i.understood text conf := by
  rw [h.analysis, found, hgrammar, hsource, hconf]
  rfl

/-- Once guesses are made or not, the association list that the turn goes on with is that of the
utterance as it is understood. -/
theorem calls_venture (h : Follows start names t) (hconf : start.confidence.Readable)
    (hparsed : t.Parsed) (hsame : SameStores i t.interpreter)
    (hsource : t.source = i.settled start.text start.confidence)
    (hventure : t.findUnknown.venture = .ok t') :
    t'.interpreter.analysis.calls t'.interpreter.grammar t'.interpreter.settings
      = (i.understood start.text start.confidence).calls (i.grammarFor start.text start.confidence)
        i.settings := by
  -- what the venture did to the front end decides which analysis the turn is left with
  obtain ⟨tried, htried, hfollows, hstate, heffect⟩ :=
    exists_venture h hconf hparsed hsame hsource
  obtain rfl : tried = t' := Except.ok.inj (htried.symm.trans hventure)
  have hsource' : tried.source = i.settled start.text start.confidence :=
    (attention_venture hventure).2.trans hsource
  cases heffect with
  | same quiet same =>
    have hhelps : i.helps start.text start.confidence = false := by
      rw [helps, quiet hconf, Bool.false_and]
    have hgrammar := grammarFor_of_not_helps hhelps
    rw [venture_eq h hparsed hsame hsource, quiet hconf, if_neg Bool.false_ne_true] at hventure
    have hparsed' : tried.Parsed := by
      rw [← Except.ok.inj hventure]
      exact ⟨hparsed.analysis, hparsed.candidates⟩
    rw [hparsed'.analysis_eq (same.grammar.trans hgrammar.symm) hsource' hfollows.confidence,
      same.grammar, same.settings, hgrammar]
  | guessed ventures guessed =>
    cases guessed with
    | kept found keeps candidates =>
      have hgrammar := grammarFor_of_helps (by rw [helps, ventures, found, Bool.and_self])
      have hparsed' : tried.Parsed := hstate.resolve_right fun hlost => candidates hlost.analysis
      rw [hparsed'.analysis_eq (keeps.grammar.trans hgrammar.symm) hsource' hfollows.confidence,
        keeps.grammar, keeps.settings, hgrammar]
    -- without a derivation there is no association list, neither in the turn nor in what is understood
    | dropped lost drops candidates =>
      have hgrammar := grammarFor_of_not_helps (by rw [helps, lost, Bool.and_false])
      have hnever := parses_eq_false_of_ventures ventures
      rw [Analysis.calls_of_candidates_eq_nil candidates, understood, hgrammar,
        Analysis.calls_of_candidates_eq_nil (Grammar.parses_eq_false_iff.1 hnever)]

/-! ## When an utterance is ignored -/

/-- The last stage has no result exactly if the turn is neither awake nor called. Until then no
stage has given one. -/
theorem result_finish_eq_none_iff (hresult : t.result = none) :
    t.finish.result = none ↔ t.awake = false ∧ t.attention = false := by
  have hcondition : (!t.awake && !t.attention) = true ↔ t.awake = false ∧ t.attention = false := by
    rw [Bool.and_eq_true, Bool.not_eq_true', Bool.not_eq_true']
  rw [← hcondition, finish]
  split
  · rename_i hasleep
    exact ⟨fun _ => hasleep, fun _ => hresult⟩
  · rename_i hheard
    have hclassified : t.classify.result ≠ none := Option.some_ne_none _
    exact ⟨fun hnone => absurd hnone hclassified, fun hasleep => absurd hasleep hheard⟩

/-- With confidences that can be read, a turn has no result exactly if it is not awake and the utterance
does not call for attention. -/
theorem exists_stages_eq_none_iff (h : Follows start ["Attention"] t)
    (hconf : start.confidence.Readable) (hsource : t.source = t.text) (hnone : t.guesses = []) :
    ∃ t', t.stages = .ok t' ∧ (t'.result = none ↔ t.awake = false
      ∧ (t.attention || t.interpreter.settings.attention != .always
        && (t.interpreter.understood start.text start.confidence).calls
          (t.interpreter.grammarFor start.text start.confidence) t.interpreter.settings) = false) := by
  obtain ⟨first, second, hparse, hmend, hfollows, hparsed, hsame, hsource⟩ :=
    exists_mended h hconf hsource
  obtain ⟨third, hventure, hfollows', hstate, heffect⟩ :=
    exists_venture hfollows hconf hparsed hsame hsource
  obtain ⟨fourth, hextract, hfollows'', -⟩ := exists_extract hfollows' hstate
  -- the text called for attention before the first stage, the list can only add to that
  have hattention : fourth.attention = (t.attention || t.interpreter.settings.attention != .always
      && (t.interpreter.understood start.text start.confidence).calls
        (t.interpreter.grammarFor start.text start.confidence) t.interpreter.settings) := by
    have hsettings : third.interpreter.settings = t.interpreter.settings :=
      hfollows'.settings.trans h.settings.symm
    rw [attention_extract (candidates_eq hstate) hextract,
      calls_venture hfollows hconf hparsed hsame hsource hventure, hsettings,
      (attention_venture hventure).1]
    show (second.attention || _) = _
    rw [attention_mend hmend, attention_parse hparse]
  have hawake : fourth.awake = t.awake := by
    have hsame := (sameDebts_parse hparse).trans (sameDebts_mend hmend)
    have howes := @owes_venture second.findUnknown third hfollows.result
      (hsame.guesses.trans hnone) hventure
    exact (sameDebts_extract hextract).1.awake.trans (howes.awake.trans hsame.awake)
  refine ⟨fourth.finish, stages_of_eq hparse hmend hventure hextract, ?_⟩
  rw [result_finish_eq_none_iff hfollows''.result, hawake, hattention]

end Turn

/-- With confidences that can be read, an utterance is ignored exactly if the front end is asleep and the
utterance does not call for attention. -/
theorem result_interpret_eq_none_iff (hbuilt : i.grammar.Built) (stamp : Stamp) (text : String)
    (awake : Bool) (hconf : conf.Readable) :
    (i.interpret stamp (some text) awake conf).result = .ok none
      ↔ awake = false ∧ i.calls text conf = false := by
  obtain ⟨t, hstages, hnone⟩ := Turn.exists_stages_eq_none_iff
    (Turn.follows_begin hbuilt stamp text awake conf) hconf rfl rfl
  rw [result_interpret, Except.ok.injEq, Turn.run, hstages, hnone]
  apply and_congr_right
  intro _
  show (Attention.inText text i.grammar.alerts i.settings.attention
    || i.settings.attention != .always
      && (i.understood text conf).calls (i.grammarFor text conf) i.settings) = false ↔ _
  rw [calls]
  by_cases hmode : i.settings.attention = .always
  · rw [hmode]
    rfl
  · rw [bne_iff_ne.2 hmode, Bool.true_and]

/-- Without confidences that can be read, no utterance is ignored. -/
theorem readable_of_result_interpret_eq_none {stamp : Stamp} {awake : Bool}
    (hignored : (i.interpret stamp (some text) awake conf).result = .ok none) : conf.Readable := by
  rcases conf.readable_or with hconf | ⟨fault, hconf⟩
  · exact hconf
  · obtain ⟨t, hstages, _⟩ :=
      @Turn.exists_halt (Turn.begin i stamp text awake conf).attend fault hconf
    rw [result_interpret, Turn.run, hstages] at hignored
    cases hignored

/-! ## What an utterance leaves behind -/

/-- An utterance adds the guesses that stay to the undecided ones, and their words to the vocabulary,
whether it is heard or not. -/
theorem exists_kept_interpret (hbuilt : i.grammar.Built) (stamp : Stamp) (text : String)
    (awake : Bool) (hconf : conf.Readable) :
    ∃ kept, (i.interpret stamp (some text) awake conf).state.provisional = i.provisional ++ kept
      ∧ i.vocabulary.Grown (kept.map (·.word))
        (i.interpret stamp (some text) awake conf).state.vocabulary := by
  have hfollows := Turn.follows_begin hbuilt stamp text awake conf
  obtain ⟨t, hstages, _⟩ := Turn.exists_stages hfollows hconf rfl
  obtain ⟨last, rfl, howes⟩ := Turn.exists_owes rfl rfl hstages
  have hstate : (i.interpret stamp (some text) awake conf).state
      = { last.interpreter with lastTrace := some last.finish.trace } := by
    have hlast : last.finish.interpreter = last.interpreter := by
      unfold Turn.finish
      split <;> rfl
    rw [state_interpret, Turn.run, hstages]
    simp only [hlast]
  rw [hstate]
  exact ⟨last.kept, howes.provisional, howes.grown⟩

/-- An utterance that is ignored leaves the known words and the undecided guesses as they were, unless
guesses about its unknown words led to a derivation, and so it leaves the rules if none of them is the
rule of a guess. If guesses did lead to a derivation, they stay: their rules come after those that were
there, their words after those of their bins, and a decision on them is still to be made. -/
theorem interpret_ignores (hbuilt : i.grammar.Built) (stamp : Stamp) (text : String)
    (conf : Confidence) (hignored : (i.interpret stamp (some text) false conf).result = .ok none) :
    let last := (i.interpret stamp (some text) false conf).state
    let guesses := i.guessesAbout text conf
    (i.helps text conf = false →
        last.vocabulary.bins = i.vocabulary.bins ∧ last.provisional = i.provisional
          ∧ ((i.ventures text conf = true →
              ∀ p ∈ i.grammar.productions.toList, ∀ q ∈ guesses, p.key ≠ q.key) →
            last.grammar.productions = i.grammar.productions))
      ∧ (i.helps text conf = true →
        (∃ new, last.grammar.productions.toList = i.grammar.productions.toList ++ new
            ∧ ∀ p ∈ new, ∃ q ∈ guesses, p.head = q.category ∧ p.steps = Grammar.wordSteps q.word
              ∧ p.status = .active)
          ∧ i.vocabulary.Grown (guesses.map (·.word)) last.vocabulary
          ∧ (∀ q ∈ guesses, last.vocabulary.known q.word = true)
          ∧ last.provisional = i.provisional ++ guesses) := by
  intro last guesses
  -- a confidence that cannot be read would be an error, and the text was ignored
  have hconf := readable_of_result_interpret_eq_none hignored
  have hplain : ∀ q ∈ guesses, Grammar.Plain q.word := fun _ => plain_of_mem_guessesAbout
  cases effect_interpret hbuilt stamp text false conf with
  | same quiet same =>
    -- no guess was made
    have hhelps : i.helps text conf = false := by rw [helps, quiet hconf, Bool.false_and]
    refine ⟨fun _ => ⟨same.bins, same.provisional, fun _ => ?_⟩, fun h => ?_⟩
    · exact congrArg Grammar.productions same.grammar
    · rw [hhelps] at h
      cases h
  | guessed ventures guessed =>
    cases guessed with
    | kept found keeps _ =>
      -- the guesses gave a parse, and stay
      have hhelps : i.helps text conf = true := by rw [helps, ventures, found]; rfl
      refine ⟨fun h => ?_, fun _ => ⟨?_, ?_, keeps.known, keeps.provisional⟩⟩
      · rw [hhelps] at h
        cases h
      · rw [show last.grammar = _ from keeps.grammar]
        exact Grammar.productions_extendAll hbuilt hplain
      · obtain ⟨kept, hprovisional, hgrown⟩ :=
          exists_kept_interpret hbuilt stamp text false hconf
        have hkept : guesses = kept :=
          List.append_cancel_left (keeps.provisional.symm.trans hprovisional)
        rw [hkept]
        exact hgrown
    | dropped lost drops _ =>
      -- the guesses gave none, and were taken back
      have hhelps : i.helps text conf = false := by rw [helps, lost, Bool.and_false]
      refine ⟨fun _ => ⟨drops.bins, drops.provisional, fun hunlike => ?_⟩, fun h => ?_⟩
      · -- no rule goes with the guesses
        have hspared : i.grammar.productions.toList.filter (Grammar.spared guesses)
            = i.grammar.productions.toList := by
          apply List.filter_eq_self.2
          intro p hp
          rw [Grammar.spared, List.all_eq_true]
          exact fun q hq => bne_iff_ne.2 (hunlike ventures p hp q hq)
        apply Array.toList_inj.1
        rw [show last.grammar = _ from drops.grammar,
          Grammar.productions_retractAll_extendAll hbuilt hplain, hspared,
          hbuilt.coherent.renumber_eq]
      · rw [hhelps] at h
        cases h

/-! ## An utterance that is ignored and learnt from -/

/-- The front end that can be asked about properties, when it is to be called first. -/
def listener : Interpreter :=
  { inquirer with settings := { inquirer.settings with attention := .anywhere } }

/-- The front end of the example is one that calls lead to. -/
theorem reached_listener : Reached listener := by
  have hstart : Reached { fresh with settings := { fresh.settings with attention := .anywhere } } :=
    .start (s := { bins := 2, inflecting := false, attention := .anywhere }) rfl
  exact .vocabulary (.grammar (.grammar hstart (.extend "toplevel" "are <HQ>"))
    (.enable (some "toplevel"))) (.add "are")

/-- The derivation of the question about a guessed property. -/
def question : Tree := .node 0 0 2 [.word, .node 1 1 2 [.word]]

/-- The rules of the example with the guess that helps. -/
theorem production_questions_tall {rule : Nat} {p : Production} :
    (questions.extendAll [⟨"tall", "HQ"⟩]).productions[rule]? = some p
      ↔ (rule = 0 ∧ p = ⟨0, "toplevel", [⟨"are", false⟩, ⟨"HQ", true⟩], .top⟩)
        ∨ (rule = 1 ∧ p = ⟨1, "HQ", [⟨"tall", false⟩], .active⟩) := by
  rw [productions_questions_tall]
  match rule with
  | 0 => simp [eq_comm]
  | 1 => simp [eq_comm]
  | rule + 2 => simp

/-- With that guess there is one derivation. -/
theorem mem_derivations_questions_tall {rule : Nat} {tree : Tree} :
    tree ∈ (questions.extendAll [⟨"tall", "HQ"⟩]).derivations ["are", "tall"] rule
      ↔ rule = 0 ∧ tree = question :=
  Grammar.mem_derivations_of_slot production_questions_tall ⟨rfl, rfl⟩ rfl rfl rfl rfl rfl rfl (by decide)
    (.inr (by decide)) (.inr (by decide))

/-- There are no attention phrases among the rules. -/
theorem alerts_questions : questions.alerts = [] := by
  show ((fresh.grammar.extend "toplevel" "are <HQ>").grammar).alerts = []
  rw [Grammar.alerts_extend (by decide)]
  rfl

/-- It understands the question with the guess that it makes. -/
theorem grammarFor_listener : listener.helps "are tall" .absent = true
    ∧ listener.grammarFor "are tall" .absent = questions.extendAll [⟨"tall", "HQ"⟩] := by
  obtain ⟨hsettled, hventures, hguesses⟩ := @guessesAbout_are_tall listener rfl rfl rfl
  have hhelps : listener.helps "are tall" .absent = true := by
    rw [helps, hventures, hguesses, hsettled, Bool.true_and]
    exact parses_questions_tall
  refine ⟨hhelps, ?_⟩
  rw [grammarFor, hhelps, if_pos rfl, hguesses]
  rfl

/-- The association list of the question has the property and nothing else: its head is a phrase
without a marker, and its words give no entries. -/
theorem exists_entries_question {a : Analysis} {s : ChartState}
    (hs : Analysis.Selected (questions.extendAll [⟨"tall", "HQ"⟩]) (tokenize true "are tall") a s) :
    ∃ alist, (a.assocList (questions.extendAll [⟨"tall", "HQ"⟩]) false).result = .ok alist
      ∧ alist.entries = ["HQ=tall"] := by
  have hbuilt : (questions.extendAll [⟨"tall", "HQ"⟩]).Built := built_questions.extendAll _
  have hderives := hs.derives
  rw [guess_oneWord.1] at hderives
  obtain ⟨hrule, htree⟩ := mem_derivations_questions_tall.1 hderives
  have htop := production_questions_tall.2 (.inl ⟨hrule, rfl⟩)
  have hquestion := production_questions_tall.2 (.inl ⟨rfl, rfl⟩)
  have hproperty := production_questions_tall.2 (.inr ⟨rfl, rfl⟩)
  have hspelling : a.spelling = ["are", "tall"] := by
    rw [hs.spelling, Grammar.spell_eq_zipWith hs.derives, htree, question, guess_oneWord.1,
      Tree.leaves_node hquestion, Tree.leavesOf_terminal _ rfl, Tree.leavesOf_nonterminal _ rfl,
      Tree.leaves_node hproperty, Tree.leavesOf_terminal _ rfl, Tree.leavesOf_nil]
    decide
  obtain ⟨alist, halist, hentries⟩ :=
    hs.exists_entries hbuilt.coherent hbuilt.tidy htop ⟨by decide, by decide⟩ false
  refine ⟨alist, halist, ?_⟩
  -- the top rule is a phrase and gives no entry of its own; the part below it is a slot
  have hphrase : "toplevel".toList.any Text.isLower = true := by decide
  have hslot : ¬"HQ".toList.any Text.isLower = true := by decide
  rw [hentries, htree, hspelling, question, Tree.entries, Grammar.stepsAt_eq hquestion, if_pos hphrase,
    Tree.entriesOf_terminal rfl, Tree.entriesOf_nonterminal rfl, Tree.entriesOf_nil, Tree.entries,
    Grammar.stepsAt_eq hproperty, if_neg hslot]
  decide

/-- The property is no attention phrase, so the question does not call the listener. -/
theorem inList_question {alist : AssocList} (h : alist.entries = ["HQ=tall"]) :
    Attention.inList alist .anywhere = false := by
  have hnext : alist.nextSlot false = some ("HQ", "tall", .ofEntries []) := by
    rw [AssocList.nextSlot, h]
    decide
  have hnone : (AssocList.ofEntries []).nextSlot false = none := by decide
  have hdiffers : Text.sameFolded "HQ" Attention.slot = false := by decide
  -- there is one slot, its name is another one, and after it the list is empty
  have hrest : (AssocList.ofEntries []).lookup Attention.slot false = none := by
    rw [AssocList.lookup]
    split
    · rfl
    · rename_i hsome
      rw [hnone] at hsome
      cases hsome
  rw [Attention.inList, AssocList.hasSlot, AssocList.findSlot, AssocList.lookup]
  split
  · rfl
  · rename_i hsome
    rw [hnext] at hsome
    cases hsome
    rw [hdiffers, if_neg Bool.false_ne_true, hrest]
    rfl

/-- The text does not call for attention, though it has a derivation. -/
theorem calls_listener : listener.calls "are tall" .absent = false := by
  have hsettled := (@guessesAbout_are_tall listener rfl rfl rfl).1
  rw [calls, Bool.or_eq_false_iff]
  constructor
  · rw [show listener.grammar = questions from rfl, alerts_questions]
    decide
  · rw [understood, grammarFor_listener.2, hsettled]
    have hne := parses_questions_tall
    rw [Grammar.parses, Bool.not_eq_true', List.isEmpty_eq_false_iff] at hne
    obtain ⟨s, hs⟩ := Analysis.exists_selected (built_questions.extendAll _).coherent hne
    obtain ⟨alist, halist, hentries⟩ := exists_entries_question hs
    rw [Analysis.calls, show listener.settings.closing = false from rfl, halist]
    show (_ && Attention.inList alist .anywhere) = false
    rw [inList_question hentries, Bool.and_false]

/-- It ignores the question. -/
theorem ignored_listener :
    (listener.interpret ⟨"", ""⟩ (some "are tall") false .absent).result = .ok none :=
  (result_interpret_eq_none_iff (i := listener) built_questions _ _ _
    (Confidence.readable_elim_text none)).2 ⟨rfl, calls_listener⟩

/-- It ignores the question, and has learnt the property from it: a rule, a word and a guess that is
still to be decided on. -/
theorem interpret_ignores_are_tall :
    let last := (listener.interpret ⟨"", ""⟩ (some "are tall") false .absent).state
    (listener.interpret ⟨"", ""⟩ (some "are tall") false .absent).result = .ok none
      ∧ (∃ new, last.grammar.productions.toList = listener.grammar.productions.toList ++ new
        ∧ ∀ p ∈ new, p.head = "HQ" ∧ p.steps = [⟨"tall", false⟩] ∧ p.status = .active)
      ∧ last.vocabulary.known "tall" = true
      ∧ last.provisional = [⟨"tall", "HQ"⟩] := by
  intro last
  obtain ⟨_, hstays⟩ := interpret_ignores (i := listener) built_questions ⟨"", ""⟩ "are tall" .absent
    ignored_listener
  obtain ⟨⟨new, hnew, hrules⟩, _, hknown, hprovisional⟩ := hstays grammarFor_listener.1
  rw [(@guessesAbout_are_tall listener rfl rfl rfl).2.2] at hrules hknown hprovisional
  refine ⟨ignored_listener, ⟨new, hnew, fun p hp => ?_⟩, hknown _ (List.mem_singleton.2 rfl),
    hprovisional⟩
  obtain ⟨q, hq, hrule⟩ := hrules p hp
  rw [List.mem_singleton.1 hq] at hrule
  exact hrule

/-- A front end that ignores an utterance may have other rules, known words and undecided guesses after
it. -/
theorem interpret_ignores_and_learns :
    let last := (listener.interpret ⟨"", ""⟩ (some "are tall") false .absent).state
    Reached listener
      ∧ (listener.interpret ⟨"", ""⟩ (some "are tall") false .absent).result = .ok none
      ∧ last.grammar.productions ≠ listener.grammar.productions
      ∧ last.vocabulary.bins ≠ listener.vocabulary.bins
      ∧ last.provisional ≠ listener.provisional := by
  intro last
  have hkeeps : Keeps [⟨"tall", "HQ"⟩] listener last := keeps_are_tall rfl rfl rfl false
  refine ⟨reached_listener, ignored_listener, ?_, fun hbins => ?_, ?_⟩
  · rw [hkeeps.grammar, show listener.grammar = questions from rfl, productions_questions,
      productions_questions_tall]
    decide
  · have hknown := hkeeps.known _ (List.mem_singleton.2 rfl)
    rw [Vocabulary.known_congr hbins] at hknown
    revert hknown
    decide
  · rw [hkeeps.provisional]
    decide

end Interpreter

end Utterance
