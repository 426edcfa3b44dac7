import Utterance.Proofs.AssocList.Slots
import Utterance.Proofs.Interpreter.Effect
import Utterance.Proofs.Parse.Selection

/-!
# The stages of a turn

With a grammar that can be built and confidences that can be read, no stage of a turn stops: a parse
counts its candidates, and as long as there are some the grammar is the one that they were found with,
so their derivation can be read. The trace tells which stages there were.
-/

namespace Utterance

/-! ## Traces -/

namespace Trace

/-- A trace without an error whose steps have the given names and are numbered from one. -/
structure Records (t : Trace) (names : List String) : Prop where
  names : t.stepNames = names
  ids : t.steps.map (·.id) = List.range' 1 t.steps.length
  error : t.error = none

theorem records_opening (stamp : Stamp) (utterance : Option String) :
    (opening stamp utterance).Records [] :=
  ⟨rfl, rfl, rfl⟩

/-- A step gets the next number, so a trace that is numbered from one without gaps stays so. -/
theorem Records.addStep {t : Trace} {names : List String} (h : t.Records names)
    (time name : String) (inputs outputs : List (String × Datum)) (description : Option String) :
    (t.addStep time name inputs outputs description).Records (names ++ [name]) where
  names := by
    have hnames : t.steps.map (·.name) = names := h.names
    simp [Trace.addStep, stepNames, hnames]
  ids := by
    simp only [Trace.addStep, List.map_append, h.ids, List.length_append, List.length_singleton,
      List.range'_concat, List.map_singleton, Nat.one_mul, Nat.add_comm]
  error := h.error

theorem Records.conclude {t : Trace} {names : List String} (h : t.Records names) (time : String)
    (act : Option String) : (t.conclude time act).Records names :=
  ⟨h.names, h.ids, h.error⟩

end Trace

/-! ## Reading a derivation -/

namespace Analysis

variable {g : Grammar} {words : List String} {a : Analysis} {s : ChartState}

/-- A selected derivation can be read, and the cursor is back at its root. -/
theorem Selected.exists_assocList (hg : g.Coherent) (hs : Selected g words a s) (closing : Bool) :
    ∃ alist, a.assocList g closing = ⟨a, .ok alist, []⟩ := by
  obtain ⟨p, parts, hp, _, _⟩ := Grammar.exists_of_mem_derivations hs.derives
  have htour : AssocList.Tour g a.spelling closing (.root (a.chart.tree s))
      ((a.chart.tree s).entries g a.spelling closing p.head) (.root (a.chart.tree s)) :=
    AssocList.tour_of_mem_derivations hg hs.derives hp
  refine ⟨.ofEntries ((a.chart.tree s).entries g a.spelling closing p.head), ?_⟩
  rw [assocList_of_candidate? hs.candidate, htour.build_eq, ← hs.cursor]
  rfl

/-- A selected derivation has a root, and asking for it leaves the analysis as it is. -/
theorem Selected.exists_root (hs : Selected g words a s) :
    ∃ head, a.root g = ⟨a, .ok (some head), []⟩ := by
  obtain ⟨p, parts, hp, htree, _⟩ := Grammar.exists_of_mem_derivations hs.derives
  have htop : (a.top none).1 = a := by
    simp only [top, hs.candidate, ← hs.cursor]
  refine ⟨p.head, ?_⟩
  rw [root, htop, hs.cursor, htree, (Cursor.at_root hp parts).focus]

/-- Without candidates there is no root. -/
theorem root_of_candidates_eq_nil (h : a.candidates = []) (g : Grammar) :
    a.root g = ⟨{ a with cursor := [] }, .ok none, []⟩ := by
  have hnone : a.candidate? none = none := by
    cases hselected : a.selected <;> simp [candidate?, h, hselected]
  simp only [root, top, hnone, Cursor.focus]

end Analysis

namespace Interpreter

variable {i : Interpreter}

/-! ## Parsing in a turn -/

namespace Turn

variable {start t : Turn} {names : List String}

/-- What a parse of the source finds with the grammar as it is now. -/
def found (t : Turn) : Outcome Analysis Nat :=
  Analysis.parse t.interpreter.grammar (.text t.source) t.confidence

/-- The turn after a parse of its source. -/
def charted (t : Turn) : Turn :=
  { t with
    interpreter := { t.interpreter with analysis := t.found.state }
    candidates := t.found.state.candidates.length
    notes := t.notes ++ t.found.notes }

/-- A turn whose analysis is that of its source with its grammar. -/
structure Parsed (t : Turn) : Prop where
  analysis : t.interpreter.analysis = t.found.state
  candidates : t.candidates = t.found.state.candidates.length

/-- A turn without derivation. -/
structure Lost (t : Turn) : Prop where
  candidates : t.candidates = 0
  analysis : t.interpreter.analysis.candidates = []

/-- A turn that has parsed its source and has no candidates is lost. -/
theorem Parsed.lost (h : t.Parsed) (hnone : t.candidates = 0) : t.Lost where
  candidates := hnone
  analysis := by
    rw [h.candidates] at hnone
    rw [h.analysis]
    exact List.length_eq_zero_iff.1 hnone

theorem Parsed.candidates_eq_zero_iff (h : t.Parsed) {g : Grammar} (hg : t.interpreter.grammar = g) :
    t.candidates = 0 ↔ g.parses t.source t.confidence = false := by
  rw [h.candidates, List.length_eq_zero_iff, Grammar.parses_eq_false_iff, found, hg]

/-- What a turn knows of its candidates depends on its grammar, source and confidences only. -/
theorem parsed_or_lost_congr {t' : Turn} (h : t.Parsed ∨ t.Lost)
    (hinterpreter : t'.interpreter = t.interpreter) (hcandidates : t'.candidates = t.candidates)
    (hsource : t'.source = t.source) (hconf : t'.confidence = t.confidence) :
    t'.Parsed ∨ t'.Lost := by
  have hfound : t'.found = t.found := by rw [found, found, hinterpreter, hsource, hconf]
  rcases h with h | h
  · exact .inl ⟨by rw [hinterpreter, hfound, h.analysis], by rw [hcandidates, hfound, h.candidates]⟩
  · exact .inr ⟨by rw [hcandidates, h.candidates], by rw [hinterpreter, h.analysis]⟩

theorem parsed_charted (t : Turn) : t.charted.Parsed := ⟨rfl, rfl⟩

/-- If the confidences can be read, a parse does not stop the turn. -/
theorem parseSource_eq (hg : t.interpreter.grammar.Built) (hconf : t.confidence.Readable) :
    t.parseSource = .ok t.charted := by
  obtain ⟨read, hread⟩ := hconf (Analysis.Sentence.text t.source).toWords.length
  have hresult : t.found.result = .ok t.found.state.candidates.length :=
    Analysis.result_parse hg.coherent hread
  have hresult' : (Analysis.parse t.interpreter.grammar (.text t.source) t.confidence).result
      = .ok t.found.state.candidates.length := hresult
  simp only [parseSource, hresult']
  rfl

/-- What a turn has kept of its start, and what it has recorded so far. -/
structure Follows (start : Turn) (names : List String) (t : Turn) : Prop where
  text : t.text = start.text
  confidence : t.confidence = start.confidence
  settings : t.interpreter.settings = start.interpreter.settings
  built : t.interpreter.grammar.Built
  records : t.trace.Records names
  result : t.result = none

/-- A turn that differs from one before it in what it found out about the sentence only. -/
theorem Follows.of_same {t' : Turn} (h : Follows start names t) (htext : t'.text = t.text)
    (hconf : t'.confidence = t.confidence) (hsame : SameStores t.interpreter t'.interpreter)
    (htrace : t'.trace = t.trace) (hresult : t'.result = t.result) : Follows start names t' where
  text := htext.trans h.text
  confidence := hconf.trans h.confidence
  settings := hsame.settings.trans h.settings
  built := by rw [hsame.grammar]; exact h.built
  records := by rw [htrace]; exact h.records
  result := hresult.trans h.result

/-- Recording a step keeps what a turn has of its start, and adds the name of the step. -/
theorem Follows.record (h : Follows start names t) (name : String)
    (inputs outputs : List (String × Datum)) (description : Option String) :
    Follows start (names ++ [name]) (t.record name inputs outputs description) where
  text := h.text
  confidence := h.confidence
  settings := h.settings
  built := h.built
  records := h.records.addStep _ _ _ _ _
  result := h.result

theorem Follows.charted (h : Follows start names t) : Follows start names t.charted :=
  h.of_same rfl rfl ⟨rfl, rfl, rfl, rfl⟩ rfl rfl

/-! ## The stages one by one -/

/-- The first stage records one step and leaves the front end as it is. -/
theorem follows_attend (hbuilt : t.interpreter.grammar.Built) (hopening : t.trace.Records [])
    (hresult : t.result = none) : Follows t ["Attention"] t.attend where
  text := rfl
  confidence := rfl
  settings := rfl
  built := hbuilt
  records := hopening.addStep _ _ _ _ _
  result := hresult

/-- The second stage parses the text as it is given. It does not stop, as the confidences can be
read. -/
theorem exists_parse (h : Follows start names t) (hconf : start.confidence.Readable) :
    ∃ t', t.parse = .ok t' ∧ Follows start (names ++ ["Parse"]) t'
      ∧ (∃ analysis, t'.interpreter = { t.interpreter with analysis }) ∧ t'.source = t.source
      ∧ t'.Parsed := by
  have hnoted : Follows start names (t.note .parseStep "Step 2: Parse - charting the sentence.") :=
    h.of_same rfl rfl (.refl _) rfl rfl
  have hparse := parseSource_eq hnoted.built (hnoted.confidence ▸ hconf)
  refine ⟨_, by rw [parse, hparse]; rfl, hnoted.charted.record .., ⟨_, rfl⟩, rfl, rfl, rfl⟩

/-- A repair of a text that is given has a result, and it changes no bin. -/
theorem repair_cases (v : Vocabulary) (text : String) :
    (v.repair (some text)).state.bins = v.bins
      ∧ ((v.repair (some text)).result = .ok none
        ∨ ∃ fixed, (v.repair (some text)).result = .ok (some fixed)) := by
  simp only [Vocabulary.repair]
  split
  · exact ⟨rfl, .inl rfl⟩
  · exact ⟨rfl, .inr ⟨_, rfl⟩⟩

/-- A repair of the text is tried, and if it corrects something the corrected text is parsed. The
words that are known stay the same; only what was noted about the repair changes. -/
theorem exists_repair (h : Follows start names t) (hconf : start.confidence.Readable)
    (hsource : t.source = t.text) (hparsed : t.Parsed) :
    ∃ t', t.repair = .ok t' ∧ Follows start (names ++ ["TypoFix"]) t'
      ∧ SameStores t.interpreter t'.interpreter
      ∧ t'.source = mended t.interpreter.vocabulary t.text ∧ t'.Parsed := by
  obtain ⟨hbins, hresult⟩ := repair_cases t.interpreter.vocabulary t.text
  -- the turn after the repair itself, before a parse of what came of it
  let mid : Turn :=
    { t with
      interpreter :=
        { t.interpreter with vocabulary := (t.interpreter.vocabulary.repair (some t.text)).state }
      notes := t.notes ++ [Topic.typoStep.entry "Step 3: TypoFix - trying small edits."]
        ++ (t.interpreter.vocabulary.repair (some t.text)).notes }
  have hsame : SameStores t.interpreter mid.interpreter := ⟨rfl, rfl, hbins, rfl⟩
  have hmid : Follows start names mid := h.of_same rfl rfl hsame rfl rfl
  rcases hresult with hnone | ⟨fixed, hfixed⟩
  -- nothing to mend, so the text and its analysis stay as they are
  · refine ⟨_, by simp only [repair, note, write, hnone]; rfl, hmid.record .., hsame, ?_,
      hparsed.analysis, hparsed.candidates⟩
    rw [mended, hnone]
    exact hsource
  · have hcorrected : Follows start names (mid.correct fixed) := hmid.of_same rfl rfl (.refl _) rfl rfl
    have hparse := parseSource_eq hcorrected.built (hcorrected.confidence ▸ hconf)
    have hrepair : ∃ inputs outputs,
        t.repair = .ok ((mid.correct fixed).charted.record "TypoFix" inputs outputs none) := by
      refine ⟨_, _, by
        simp only [repair, note, write, hfixed]
        show (mid.correct fixed).parseSource >>= _ = _
        rw [hparse]
        rfl⟩
    obtain ⟨inputs, outputs, hrepair⟩ := hrepair
    refine ⟨_, hrepair, hcorrected.charted.record .., ⟨rfl, rfl, hbins, rfl⟩, ?_, rfl, rfl⟩
    rw [mended, hfixed]
    rfl

/-- Changes of the front end and the notes, one for every guess, come to one change of both. Nothing
else of a turn is touched, which is what lets the guesses be looked at apart from the turn. -/
theorem exists_foldl_change {f : Interpreter → Guess → Interpreter} {change : Turn → Guess → Turn}
    (h : ∀ t g, ∃ notes, change t g = { t with interpreter := f t.interpreter g, notes })
    (guesses : List Guess) (t : Turn) :
    ∃ notes, guesses.foldl change t
      = { t with interpreter := guesses.foldl f t.interpreter, notes } := by
  induction guesses generalizing t with
  | nil => exact ⟨t.notes, rfl⟩
  | cons g guesses ih =>
    obtain ⟨first, hfirst⟩ := h t g
    obtain ⟨notes, hnotes⟩ := ih (change t g)
    refine ⟨notes, ?_⟩
    rw [List.foldl_cons, hnotes, hfirst]
    rfl

/-- A change for every guess changes the front end and the notes, and nothing else of the turn. -/
theorem forGuesses_eq (f : Interpreter → String → String → Interpreter × Nat × Journal) (t : Turn) :
    ∃ notes, t.forGuesses f
      = { t with
          interpreter := t.guesses.foldl (fun i g => (f i g.category g.word).1) t.interpreter
          notes } := by
  unfold forGuesses
  exact exists_foldl_change (f := fun i g => (f i g.category g.word).1) (fun _ _ => ⟨_, rfl⟩) t.guesses t

/-- Guesses that were tried stay exactly if they led to a derivation. Learning them may add rules;
if the parse finds nothing, the rules are taken back, and the analysis left behind is the one
without candidates. -/
theorem exists_settle (h : Follows start names t) (hconf : start.confidence.Readable)
    (hapt : ∀ g ∈ t.guesses, g.Apt t.interpreter.vocabulary) :
    ∃ t', (t.forGuesses learn).parseSource.map settle = .ok t' ∧ Follows start names t'
      ∧ (t'.Parsed ∨ t'.Lost)
      ∧ Guessed t.interpreter t.source t.confidence t.guesses t'.interpreter := by
  obtain ⟨notes, hlearn⟩ := forGuesses_eq learn t
  -- the turn with its guesses learnt, before a parse
  let learnt : Turn := { t with interpreter := t.interpreter.learnAll t.guesses, notes }
  have hlearnt : Follows start names learnt := by
    refine ⟨h.text, h.confidence, ?_, ?_, h.records, h.result⟩
    · show (t.interpreter.learnAll t.guesses).settings = _
      rw [learnAll_eq]
      exact h.settings
    · show (t.interpreter.learnAll t.guesses).grammar.Built
      rw [learnAll_eq]
      exact h.built.extendAll t.guesses
  have hparse : (t.forGuesses learn).parseSource = .ok learnt.charted := by
    rw [hlearn]
    exact parseSource_eq hlearnt.built (hlearnt.confidence ▸ hconf)
  rw [hparse]
  have hcharted := hlearnt.charted
  -- there are no candidates just when the grammar with the guesses does not parse the text
  have hzero := (parsed_charted learnt).candidates_eq_zero_iff
    (show learnt.charted.interpreter.grammar = t.interpreter.grammar.extendAll t.guesses by
      show (t.interpreter.learnAll t.guesses).grammar = _
      rw [learnAll_eq])
  by_cases hfound : 0 < learnt.charted.candidates
  -- the guesses gave a parse, so the turn that was charted is the one that goes on
  · have hkeeps := keeps_learnAll hapt learnt.found.state
    refine ⟨_, by rw [Except.map, settle, if_pos hfound], ?_, .inl ⟨rfl, rfl⟩, .kept ?_ hkeeps ?_⟩
    · exact ⟨hcharted.text, hcharted.confidence, hcharted.settings, hcharted.built,
        hcharted.records, hcharted.result⟩
    · rw [← Bool.not_eq_false]
      exact fun hlost => Nat.ne_of_gt hfound (hzero.2 hlost)
    · exact List.length_pos_iff.1 hfound
  · -- the analysis stays that of the last parse, which found nothing
    obtain ⟨more, hunlearn⟩ := forGuesses_eq unlearn learnt.charted
    have hlost := (parsed_charted learnt).lost (Nat.eq_zero_of_not_pos hfound)
    have hdrops := drops_unlearnAll hapt learnt.found.state
    have hanalysis : (learnt.charted.interpreter.unlearnAll t.guesses).analysis.candidates = [] := by
      rw [unlearnAll_eq]
      exact hlost.analysis
    refine ⟨{ learnt.charted with
        interpreter := learnt.charted.interpreter.unlearnAll t.guesses, notes := more },
      by rw [Except.map, settle, if_neg hfound, hunlearn]; rfl, ?_, .inr ⟨hlost.candidates, hanalysis⟩,
      .dropped (hzero.1 hlost.candidates) hdrops hanalysis⟩
    refine ⟨hcharted.text, hcharted.confidence, hdrops.settings.trans h.settings, ?_,
      hcharted.records, hcharted.result⟩
    show (learnt.charted.interpreter.unlearnAll t.guesses).grammar.Built
    rw [unlearnAll_eq]
    exact hcharted.built.retractAll t.guesses

/-- Tries the guesses of a turn, if there are any. -/
def tryGuesses (t : Turn) : Except Halt Turn :=
  if t.guesses.isEmpty then .ok t else (t.forGuesses learn).parseSource.map settle

/-- The guesses of a turn without derivation are tried, if there are any; without any nothing is
tried, and the turn stays without derivation. -/
theorem exists_try (h : Follows start names t) (hconf : start.confidence.Readable) (hlost : t.Lost)
    (hnever : t.interpreter.grammar.parses t.source t.confidence = false)
    (hapt : ∀ g ∈ t.guesses, g.Apt t.interpreter.vocabulary) :
    ∃ t', t.tryGuesses = .ok t'
      ∧ Follows start names t' ∧ (t'.Parsed ∨ t'.Lost)
      ∧ Guessed t.interpreter t.source t.confidence t.guesses t'.interpreter := by
  unfold tryGuesses
  split
  · -- no guesses are like guesses that did not help
    rename_i hempty
    refine ⟨t, rfl, h, .inr hlost, ?_⟩
    rw [List.isEmpty_iff.1 hempty]
    exact .dropped hnever ⟨rfl, rfl, rfl, rfl⟩ hlost.analysis
  · exact exists_settle h hconf hapt

/-- The turn with its guesses, before they are tried. -/
def withGuesses (t : Turn) : Turn :=
  let guessed := t.interpreter.vocabulary.guess t.source
  { t.note .guessStep "Step 4: Guess - inferring categories of unknown words." with
    interpreter := { t.interpreter with vocabulary := guessed.1 }
    guesses := guessed.2
    longestUnknown :=
      if guessed.1.longestUnknown.isEmpty then none else some guessed.1.longestUnknown }

/-- The turn once its guesses were tried: what came of them is recorded, and a derivation that they led to
dismisses the unknown words. -/
def recordGuesses (t tried : Turn) : Turn :=
  { tried.record "Guess" [("text", .text tried.source)]
      [("guesses", guessesDatum t.withGuesses.guesses),
        ("marked", .text (t.interpreter.vocabulary.guess t.source).1.marked),
        ("candidates", .int tried.candidates)]
      none with
    unknown := if 0 < tried.candidates then [] else tried.unknown }

/-- Guessing is finding the guesses, trying them, and recording what came of them. Without any
guesses nothing is tried, and what is recorded says so. -/
theorem guess_eq (t : Turn) : t.guess = t.withGuesses.tryGuesses.map t.recordGuesses := by
  have hrecord : ∀ tried : Turn, (if 0 < tried.candidates
      then { t.recordGuesses tried with unknown := [] }
      else { t.recordGuesses tried with unknown := tried.unknown }) = t.recordGuesses tried := by
    intro tried
    rw [recordGuesses]
    split <;> rfl
  unfold tryGuesses
  -- what came of it is recorded alike, whether there was anything to try or not
  by_cases hempty : t.withGuesses.guesses.isEmpty = true
  · rw [if_pos hempty]
    apply (if_pos hempty).trans
    exact congrArg Except.ok (hrecord t.withGuesses)
  · rw [if_neg hempty]
    apply (if_neg hempty).trans
    show (t.withGuesses.forGuesses learn).parseSource.map settle >>= _ = _
    cases (t.withGuesses.forGuesses learn).parseSource.map settle with
    | error halt => rfl
    | ok tried => exact congrArg Except.ok (hrecord tried)

/-- Guesses are made about unknown words of the source, and they stay exactly if they lead to a
derivation. -/
theorem exists_guess (h : Follows start names t) (hconf : start.confidence.Readable)
    (hparsed : t.Parsed) (hnone : t.candidates = 0) :
    ∃ t', t.guess = .ok t' ∧ Follows start (names ++ ["Guess"]) t' ∧ (t'.Parsed ∨ t'.Lost)
      ∧ Guessed t.interpreter t.source t.confidence (t.interpreter.vocabulary.guess t.source).2
        t'.interpreter := by
  have hsame : SameStores t.interpreter t.withGuesses.interpreter := ⟨rfl, rfl, rfl, rfl⟩
  have hmade : Follows start names t.withGuesses := h.of_same rfl rfl hsame rfl rfl
  have hlost := hparsed.lost hnone
  have hnever := (hparsed.candidates_eq_zero_iff rfl).1 hnone
  have hapt : ∀ g ∈ t.withGuesses.guesses, g.Apt t.withGuesses.interpreter.vocabulary := by
    intro g hg
    have hg : g ∈ (t.interpreter.vocabulary.guess t.source).2 := hg
    exact (Guess.apt_of_mem_guess hg).congr hsame.bins
  obtain ⟨tried, htried, hfollows, hstate, hguessed⟩ :=
    exists_try hmade hconf ⟨hlost.candidates, hlost.analysis⟩ hnever hapt
  refine ⟨t.recordGuesses tried, by rw [guess_eq, htried]; rfl, ?_,
    parsed_or_lost_congr hstate rfl rfl rfl rfl, hguessed.of_same_left hsame⟩
  exact (hfollows.record "Guess" _ _ none).of_same rfl rfl (.refl _) rfl rfl

/-- Reading the slots of a derivation changes the analysis and what is said about the association
list. -/
theorem readSlots_eq {a : Analysis} {alist : AssocList} (hsome : t.candidates ≠ 0)
    (halist : t.interpreter.analysis.assocList t.interpreter.grammar t.interpreter.settings.closing
      = ⟨a, .ok alist, []⟩) :
    ∃ attention, t.readSlots
      = .ok { t with interpreter := { t.interpreter with analysis := a }, alist, attention } := by
  exact ⟨_, by simp only [readSlots, if_neg hsome, halist]; rfl⟩

/-- Asking for the root changes nothing but the analysis. -/
theorem root_eq {a : Analysis} {head : Option String}
    (hroot : t.interpreter.analysis.root t.interpreter.grammar = ⟨a, .ok head, []⟩) :
    t.root = .ok (head, { t with interpreter := { t.interpreter with analysis := a } }) := by
  simp only [root, hroot]

/-- The slots of the derivation are read, if there is one, and then its root. After a guess that did
not help there is no derivation, and nothing to read. -/
theorem exists_readSlots (h : Follows start names t) (hstate : t.Parsed ∨ t.Lost) :
    ∃ t' head t'', t.readSlots = .ok t' ∧ t'.root = .ok (head, t'') ∧ Follows start names t''
      ∧ SameStores t.interpreter t''.interpreter
      ∧ t''.interpreter.analysis.candidates = t.interpreter.analysis.candidates := by
  by_cases hnone : t.candidates = 0
  · have hlost : t.Lost := hstate.elim (fun hparsed => hparsed.lost hnone) id
    have hroot := Analysis.root_of_candidates_eq_nil hlost.analysis t.interpreter.grammar
    refine ⟨t, none, _, by rw [readSlots, if_pos hnone], root_eq hroot, ?_, ⟨rfl, rfl, rfl, rfl⟩, rfl⟩
    exact h.of_same rfl rfl ⟨rfl, rfl, rfl, rfl⟩ rfl rfl
  · -- there are candidates, so the grammar is still the one that they were found with
    have hparsed : t.Parsed := hstate.resolve_right fun hlost => hnone hlost.candidates
    have hne : t.found.state.candidates ≠ [] := by
      rw [← List.length_pos_iff, ← hparsed.candidates]
      exact Nat.pos_of_ne_zero hnone
    obtain ⟨s, hs⟩ := Analysis.exists_selected h.built.coherent hne
    have hselected : Analysis.Selected t.interpreter.grammar (Analysis.Sentence.text t.source).toWords
        t.interpreter.analysis s := by
      rw [hparsed.analysis]
      exact hs
    obtain ⟨alist, halist⟩ :=
      hselected.exists_assocList h.built.coherent t.interpreter.settings.closing
    obtain ⟨head, hroot⟩ := hselected.exists_root
    obtain ⟨attention, hslots⟩ := readSlots_eq hnone halist
    refine ⟨_, some head, _, hslots, root_eq hroot, ?_, ⟨rfl, rfl, rfl, rfl⟩, rfl⟩
    exact h.of_same rfl rfl ⟨rfl, rfl, rfl, rfl⟩ rfl rfl

/-- The slots are extracted without stopping the turn: with candidates from the selected derivation,
and without from nothing. -/
theorem exists_extract (h : Follows start names t) (hstate : t.Parsed ∨ t.Lost) :
    ∃ t', t.extract = .ok t' ∧ Follows start (names ++ ["AssocList"]) t'
      ∧ SameStores t.interpreter t'.interpreter
      ∧ t'.interpreter.analysis.candidates = t.interpreter.analysis.candidates := by
  let noted := t.note .assocStep "Step 5: AssocList - extracting slots."
  have hnoted : Follows start names noted := h.of_same rfl rfl (.refl _) rfl rfl
  obtain ⟨t', head, t'', hslots, hroot, hfollows, hsame, hcandidates⟩ := exists_readSlots hnoted
    (parsed_or_lost_congr hstate rfl rfl rfl rfl)
  have hextract : ∃ inputs outputs, t.extract = .ok (t''.record "AssocList" inputs outputs none) := by
    refine ⟨_, _, by
      simp only [extract]
      show noted.readSlots >>= _ = _
      rw [hslots]
      show t'.root >>= _ = _
      rw [hroot]
      rfl⟩
  obtain ⟨inputs, outputs, hextract⟩ := hextract
  exact ⟨_, hextract, hfollows.record .., hsame, hcandidates⟩

/-! ## The whole turn -/

/-- Repairs the text if it has no derivation. -/
def mend (t : Turn) : Except Halt Turn := if t.candidates = 0 then t.repair else .ok t

/-- Makes guesses if there is still no derivation and a reason to make some. -/
def venture (t : Turn) : Except Halt Turn :=
  if t.candidates = 0 && !t.unknown.isEmpty && t.interpreter.settings.guessing then t.guess else .ok t

/-- Makes something of the utterance, or ignores it. -/
def finish (t : Turn) : Turn := if !t.awake && !t.attention then t.ignore else t.classify

/-- The stages of a turn, with the conditions of two of them inside. The stages are put this way so
that each has one lemma, whether it does anything or not. -/
theorem stages_eq (t : Turn) :
    t.stages = (do
      let t ← t.parse
      let t ← t.mend
      let t ← t.findUnknown.venture
      let t ← t.extract
      return t.finish) := by
  -- what comes after the repair is the same whether there was one or not
  have hlater : ∀ t : Turn,
      (if t.candidates = 0 && !t.unknown.isEmpty && t.interpreter.settings.guessing then
        t.guess >>= fun t => t.extract >>= fun t => pure t.finish
      else (Except.ok t : Except Halt Turn) >>= fun t => t.extract >>= fun t => pure t.finish)
      = t.venture >>= fun t => t.extract >>= fun t => pure t.finish := by
    intro t
    unfold venture
    split <;> rfl
  unfold stages
  congr 1
  funext t
  unfold mend
  split
  · show t.repair >>= _ = t.repair >>= _
    congr 1
    funext t
    exact hlater t.findUnknown
  · exact hlater t.findUnknown

/-- Stages that do not stop make up the turn. -/
theorem stages_of_eq {first second third fourth : Turn} (hparse : t.parse = .ok first)
    (hmend : first.mend = .ok second) (hventure : second.findUnknown.venture = .ok third)
    (hextract : third.extract = .ok fourth) : t.stages = .ok fourth.finish := by
  rw [stages_eq, hparse]
  -- a stage that has not stopped hands its turn on, so the stages can be taken off one after the
  -- other
  show first.mend >>= _ = _
  rw [hmend]
  show second.findUnknown.venture >>= _ = _
  rw [hventure]
  show third.extract >>= _ = _
  rw [hextract]
  rfl

/-- The last stage leaves the front end alone and takes a step exactly if there is a result. -/
theorem records_finish (h : Follows start names t) :
    t.finish.interpreter = t.interpreter
      ∧ t.finish.trace.Records (names ++ if t.finish.result.isSome then ["SpeechAct"] else []) := by
  unfold finish
  split
  -- nothing was heard: the trace is concluded as it is
  · refine ⟨rfl, ?_⟩
    have hresult : t.ignore.result = none := h.result
    rw [hresult, Option.isSome_none, if_neg Bool.false_ne_true, List.append_nil]
    exact h.records.conclude _ _
  -- the act is classified, which is one more step
  · refine ⟨rfl, ?_⟩
    have hresult : t.classify.result.isSome = true := rfl
    rw [hresult, if_pos rfl]
    exact (h.records.addStep _ _ _ _ _).conclude _ _

/-- The text is repaired exactly if it has no derivation. Either way the turn has parsed what it
then goes by. -/
theorem exists_mend (h : Follows start names t) (hconf : start.confidence.Readable)
    (hsource : t.source = t.text) (hparsed : t.Parsed) :
    ∃ t', t.mend = .ok t'
      ∧ Follows start
        (names ++ if t.interpreter.grammar.parses start.text start.confidence then [] else ["TypoFix"]) t'
      ∧ SameStores t.interpreter t'.interpreter
      ∧ t'.source = t.interpreter.settled start.text start.confidence ∧ t'.Parsed := by
  have hzero := hparsed.candidates_eq_zero_iff rfl
  rw [hsource, h.text, h.confidence] at hzero
  cases hparses : t.interpreter.grammar.parses start.text start.confidence with
  | false =>
    obtain ⟨t', hrepair, hfollows, hsame, hmended, hparsed⟩ := exists_repair h hconf hsource hparsed
    refine ⟨t', by rw [mend, if_pos (hzero.2 hparses), hrepair], hfollows, hsame, ?_, hparsed⟩
    rw [settled, hparses, if_neg Bool.false_ne_true, hmended, h.text]
  -- there was a derivation before, so the text stays as it is
  | true =>
    have hsome : t.candidates ≠ 0 := by
      intro hnone
      rw [hzero.1 hnone] at hparses
      cases hparses
    refine ⟨t, by rw [mend, if_neg hsome], ?_, .refl _, ?_, hparsed⟩
    · simpa using h
    · rw [settled, hparses, if_pos rfl, hsource, h.text]

/-- Guesses are made exactly if a turn with the same stores would make them: the text does not
parse, it has unknown words, and guessing is switched on. -/
theorem venture_eq (h : Follows start names t) (hparsed : t.Parsed)
    (hsame : SameStores i t.interpreter)
    (hsource : t.source = i.settled start.text start.confidence) :
    t.findUnknown.venture = if i.ventures start.text start.confidence then t.findUnknown.guess
      else .ok t.findUnknown := by
  have hnone : decide (t.candidates = 0) = !i.grammar.parses t.source t.confidence := by
    rw [Bool.eq_iff_iff, decide_eq_true_iff, Bool.not_eq_true']
    exact hparsed.candidates_eq_zero_iff hsame.grammar
  -- the list of unknown words is empty just if there is none in the text
  have hunknown : (!t.findUnknown.unknown.isEmpty)
      = (tokenize true t.source).any fun word => !i.vocabulary.known word := by
    simp only [findUnknown, Vocabulary.known_congr hsame.bins]
    rw [Bool.eq_iff_iff]
    simp
  have hcondition : (t.candidates = 0 && !t.findUnknown.unknown.isEmpty
      && t.interpreter.settings.guessing) = i.ventures start.text start.confidence := by
    rw [hnone, hunknown, hsame.settings, ventures, ← hsource, ← h.confidence, Bool.and_right_comm]
  exact congrArg (fun b : Bool => if b then t.findUnknown.guess else .ok t.findUnknown) hcondition

/-- Guesses are made exactly if there is still no derivation and a reason to make some. -/
theorem exists_venture (h : Follows start names t) (hconf : start.confidence.Readable)
    (hparsed : t.Parsed) (hsame : SameStores i t.interpreter)
    (hsource : t.source = i.settled start.text start.confidence) :
    ∃ t', t.findUnknown.venture = .ok t'
      ∧ Follows start (names ++ if i.ventures start.text start.confidence then ["Guess"] else []) t'
      ∧ (t'.Parsed ∨ t'.Lost) ∧ Effect i start.text start.confidence t'.interpreter := by
  have hfollows : Follows start names t.findUnknown := h.of_same rfl rfl (.refl _) rfl rfl
  rw [venture_eq h hparsed hsame hsource]
  cases hventures : i.ventures start.text start.confidence with
  | false =>
    refine ⟨t.findUnknown, rfl, ?_, .inl ⟨hparsed.analysis, hparsed.candidates⟩,
      .same (fun _ => hventures) hsame⟩
    simpa using hfollows
  | true =>
    have hnone : t.candidates = 0 := by
      rw [hparsed.candidates_eq_zero_iff hsame.grammar, hsource, h.confidence]
      exact parses_eq_false_of_ventures hventures
    obtain ⟨t', hguess, hfollows', hstate, hguessed⟩ :=
      exists_guess hfollows hconf ⟨hparsed.analysis, hparsed.candidates⟩ hnone
    refine ⟨t', hguess, hfollows', hstate, .guessed hventures ?_⟩
    -- the vocabulary guesses by its bins, and the source is the settled text
    have hguesses : (t.interpreter.vocabulary.guess t.source).2
        = i.guessesAbout start.text start.confidence := by
      rw [Vocabulary.guess_congr hsame.bins, hsource]
      rfl
    rw [← hguesses, ← hsource, ← h.confidence]
    exact hguessed.of_same_left hsame

/-- The steps of a turn before its last stage. -/
def plan (i : Interpreter) (text : String) (conf : Confidence) : List String :=
  ["Attention", "Parse"] ++ (if i.grammar.parses text conf then [] else ["TypoFix"])
    ++ (if i.ventures text conf then ["Guess"] else []) ++ ["AssocList"]

/-- With confidences that can be read, the turn has parsed the text as it is given or repaired before it
may make guesses. -/
theorem exists_mended (h : Follows start ["Attention"] t) (hconf : start.confidence.Readable)
    (hsource : t.source = t.text) :
    ∃ first second, t.parse = .ok first ∧ first.mend = .ok second
      ∧ Follows start (["Attention", "Parse"]
        ++ if t.interpreter.grammar.parses start.text start.confidence then [] else ["TypoFix"]) second
      ∧ second.Parsed ∧ SameStores t.interpreter second.interpreter
      ∧ second.source = t.interpreter.settled start.text start.confidence := by
  obtain ⟨first, hparse, hfollows, ⟨a, hfirst⟩, hsource', hparsed⟩ := exists_parse h hconf
  have hsource : first.source = first.text := by rw [hsource', hsource, h.text, hfollows.text]
  obtain ⟨second, hmend, hfollows, hsame, hsource, hparsed⟩ :=
    exists_mend hfollows hconf hsource hparsed
  -- the first parse changed nothing that later stages depend on
  rw [hfirst] at hfollows hsame hsource
  exact ⟨first, second, hparse, hmend, hfollows, hparsed,
    ⟨hsame.settings, hsame.grammar, hsame.bins, hsame.provisional⟩, hsource⟩

/-- With confidences that can be read, no stage stops the turn. Each stage hands on what the next
needs: that the source has been parsed or has no candidates, and that the stores are those of the
start. -/
theorem exists_stages (h : Follows start ["Attention"] t) (hconf : start.confidence.Readable)
    (hsource : t.source = t.text) :
    ∃ t', t.stages = .ok t' ∧ Effect t.interpreter start.text start.confidence t'.interpreter
      ∧ t'.trace.Records (plan t.interpreter start.text start.confidence
        ++ if t'.result.isSome then ["SpeechAct"] else []) := by
  obtain ⟨first, second, hparse, hmend, hfollows, hparsed, hsame, hsource⟩ :=
    exists_mended h hconf hsource
  obtain ⟨third, hventure, hfollows, hstate, heffect⟩ :=
    exists_venture hfollows hconf hparsed hsame hsource
  obtain ⟨fourth, hextract, hfollows, hsame', hcandidates⟩ := exists_extract hfollows hstate
  obtain ⟨hinterpreter, hrecords⟩ := records_finish hfollows
  refine ⟨fourth.finish, stages_of_eq hparse hmend hventure hextract, ?_, hrecords⟩
  rw [hinterpreter]
  exact heffect.of_same_right hsame' hcandidates

/-- With confidences that cannot be read, the turn stops at the first parse. Until then nothing has
been changed but notes and the analysis. -/
theorem exists_halt {fault : Fault} (hconf : ∀ n, t.confidence.read n = .error fault) :
    ∃ t', t.stages = .error (fault, t') ∧ SameStores t.interpreter t'.interpreter := by
  let noted := t.note .parseStep "Step 2: Parse - charting the sentence."
  have hfound : Analysis.parse noted.interpreter.grammar (.text noted.source) noted.confidence
      = ⟨{ words := (Analysis.Sentence.text t.source).toWords }, .error fault, []⟩ := by
    simp only [Analysis.parse, Analysis.parseWith]
    rw [show noted.confidence.read _ = _ from hconf _]
    rfl
  have hparse : ∃ t', noted.parseSource = .error (fault, t')
      ∧ SameStores t.interpreter t'.interpreter := by
    refine ⟨_, by simp only [parseSource, hfound]; rfl, ?_⟩
    exact ⟨rfl, rfl, rfl, rfl⟩
  obtain ⟨t', hparse, hsame⟩ := hparse
  refine ⟨t', ?_, hsame⟩
  rw [stages, parse, show (t.note _ _).parseSource = _ from hparse]
  rfl

/-- The turn of an utterance before its first stage. -/
def begin (i : Interpreter) (stamp : Stamp) (text : String) (awake : Bool) (confidence : Confidence) :
    Turn :=
  { interpreter := i
    trace := .opening stamp (some text)
    now := stamp.time
    text
    confidence
    awake
    notes := [Topic.utterance.entry ("Interpreting: '" ++ text ++ "'")]
    source := text }

/-- The turn of an utterance, after its first stage. -/
theorem follows_begin (hbuilt : i.grammar.Built) (stamp : Stamp) (text : String) (awake : Bool)
    (conf : Confidence) :
    Follows (begin i stamp text awake conf) ["Attention"] (begin i stamp text awake conf).attend :=
  follows_attend hbuilt (Trace.records_opening _ _) rfl

end Turn

/-! ## Utterances -/

/-- An utterance leaves behind the front end of its turn, with the trace of the turn as the last
one. -/
theorem state_interpret (i : Interpreter) (stamp : Stamp) (text : String) (awake : Bool)
    (conf : Confidence) :
    (i.interpret stamp (some text) awake conf).state
      = { (Turn.begin i stamp text awake conf).run.interpreter with
          lastTrace := some (Turn.begin i stamp text awake conf).run.trace } := rfl

/-- The result of an utterance is that of its turn. -/
theorem result_interpret (i : Interpreter) (stamp : Stamp) (text : String) (awake : Bool)
    (conf : Confidence) :
    (i.interpret stamp (some text) awake conf).result
      = .ok (Turn.begin i stamp text awake conf).run.result := rfl

/-- What an utterance does to a front end: whatever it is, and whether its confidence can be read or
not, it leaves what is known as it was, or guesses were made and kept or taken back. -/
theorem effect_interpret (hbuilt : i.grammar.Built) (stamp : Stamp) (text : String) (awake : Bool)
    (conf : Confidence) : Effect i text conf (i.interpret stamp (some text) awake conf).state := by
  have hrun : Effect i text conf (Turn.begin i stamp text awake conf).run.interpreter := by
    rcases conf.readable_or with hconf | ⟨fault, hconf⟩
    · obtain ⟨t, hstages, heffect, _⟩ :=
        Turn.exists_stages (Turn.follows_begin hbuilt stamp text awake conf) hconf rfl
      rw [Turn.run, hstages]
      exact heffect
    · obtain ⟨t, hstages, hsame⟩ :=
        @Turn.exists_halt (Turn.begin i stamp text awake conf).attend fault hconf
      rw [Turn.run, hstages]
      -- the turn stopped before it could make guesses
      refine .same (fun hreadable => ?_)
        ⟨hsame.settings, hsame.grammar, hsame.bins, hsame.provisional⟩
      obtain ⟨read, hread⟩ := hreadable 0
      rw [hconf] at hread
      cases hread
  rw [state_interpret]
  exact hrun.of_same_right ⟨rfl, rfl, rfl, rfl⟩ rfl

/-- If the confidences can be read, an utterance has a result and a trace with the planned steps. -/
theorem exists_records_interpret (hbuilt : i.grammar.Built) (stamp : Stamp) (text : String)
    (awake : Bool) {conf : Confidence} (hconf : conf.Readable) :
    ∃ result trace, (i.interpret stamp (some text) awake conf).result = .ok result
      ∧ (i.interpret stamp (some text) awake conf).state.lastTrace = some trace
      ∧ trace.Records (Turn.plan i text conf ++ if result.isSome then ["SpeechAct"] else []) := by
  obtain ⟨t, hstages, _, hrecords⟩ :=
    Turn.exists_stages (Turn.follows_begin hbuilt stamp text awake conf) hconf rfl
  refine ⟨t.result, t.trace, ?_, ?_, hrecords⟩
  · rw [result_interpret, Turn.run, hstages]
  · rw [state_interpret, Turn.run, hstages]

end Interpreter

end Utterance
