import Mathlib.Data.List.Perm.Basic
import Utterance.Proofs.Interpreter.Rollback
import Utterance.Proofs.Parse.Correctness

/-!
# Guesses that are rejected

A turn whose guesses helped keeps them, tells which ones it kept, and waits for a decision on each. It
adds the rules of its guesses and nothing else to the grammar, their words and nothing else to the
vocabulary, and the guesses that it tells of to the undecided ones. So when all of them are rejected the
front end is as it was before, whatever the order: what is left of the rules depends only on which guesses
there are, and every word is forgotten at its first rejection.
-/

namespace Utterance

/-! ## Texts with a derivation -/

/-- A text has a derivation if and only if a rule that may start a sentence derives its words.

A front end decides this by parsing and looking whether there are candidates; on the right is what
that finds out, without the parser. -/
theorem Grammar.parses_iff {g : Grammar} (hg : g.Coherent) {text : String} {conf : Confidence}
    (hconf : conf.Readable) (hwords : tokenize true text ≠ []) (hproductions : g.productions ≠ #[]) :
    g.parses text conf = true
      ↔ ∃ rule, (∃ p, g.productions[rule]? = some p ∧ p.status = .top)
        ∧ (g.derivations (tokenize true text) rule).Nonempty := by
  obtain ⟨read, hread⟩ := hconf (tokenize true text).length
  have hcharted : Analysis.Charted g (tokenize true text) (Analysis.parse g (.text text) conf) :=
    @Analysis.charted_parse g hg (.text text) conf read hread hwords hproductions
  rw [parses, Bool.not_eq_true', List.isEmpty_eq_false_iff, ← List.length_pos_iff,
    ← hcharted.length_rules, List.length_pos_iff_exists_mem]
  exact exists_congr fun rule => hcharted.mem_rules hg

/-! ## Rejecting one guess after the other -/

namespace Grammar

variable {g : Grammar} {guesses order : List Guess}

/-- Which rules go does not depend on the order. -/
theorem productions_retractAll_perm (h : g.Built) (hplain : ∀ q ∈ guesses, Plain q.word)
    (horder : order.Perm guesses) :
    (g.retractAll order).productions.toList = (g.retractAll guesses).productions.toList := by
  have hspared : spared order = spared guesses := by
    funext p
    exact Bool.eq_iff_iff.2 (by simp only [spared, List.all_eq_true, horder.mem_iff])
  rw [productions_retractAll h fun q hq => hplain q (horder.mem_iff.1 hq),
    productions_retractAll h hplain, hspared]

/-- If all words of the grammar are known, taking back the rules of guesses leaves it as it was. -/
theorem productions_retractAll_of_known {v : Vocabulary} (h : g.Built)
    (hapt : ∀ q ∈ guesses, q.Apt v)
    (hknown : ∀ t ∈ g.terminals, t ≠ Step.wildcard →
      ∀ word, Text.lower word = Text.lower t → v.known word = true)
    (horder : order.Perm guesses) :
    ((g.extendAll guesses).retractAll order).productions = g.productions := by
  have hplain : ∀ q ∈ guesses, Plain q.word := fun q hq => (hapt q hq).plain
  -- the word of a guess is unknown, as the guess is apt; a production that was there before has known
  -- words only, so none of them is the rule of a guess
  have hspared : g.productions.toList.filter (spared guesses) = g.productions.toList := by
    apply List.filter_eq_self.2
    intro p hp
    apply spared_of_known hapt
    intro _ _ _ t hsteps
    apply hknown t
    rw [mem_terminals_iff]
    exact ⟨p, hp, by rw [hsteps]; exact List.mem_singleton.2 rfl⟩
  apply Array.toList_inj.1
  rw [productions_retractAll_perm (h.extendAll guesses) hplain horder,
    productions_retractAll_extendAll h hplain, hspared, h.coherent.renumber_eq]

end Grammar

/-- A computation in two parts succeeds if both do. -/
theorem exists_of_bind_eq_ok {ε α β : Type} {x : Except ε α} {f : α → Except ε β} {b : β}
    (h : x >>= f = .ok b) : ∃ a, x = .ok a ∧ f a = .ok b := by
  cases x with
  | error e => cases h
  | ok a => exact ⟨a, rfl, h⟩

/-- A result that is put another way comes from a result. -/
theorem exists_of_map_eq_ok {ε α β : Type} {x : Except ε α} {f : α → β} {b : β}
    (h : x.map f = .ok b) : ∃ a, x = .ok a ∧ f a = b := by
  cases x with
  | error e => cases h
  | ok a => exact ⟨a, rfl, Except.ok.inj h⟩

namespace Interpreter

variable {i j : Interpreter} {guesses order : List Guess}

/-- The front end with all guesses rejected, one after the other. -/
def rejectAll (i : Interpreter) (guesses : List Guess) : Interpreter :=
  guesses.foldl (fun i g => (i.rejectGuess g).state) i

/-- Rejecting guesses unlearns them and takes them off the list of undecided ones; the two do not
get in each other's way. -/
theorem rejectAll_eq (i : Interpreter) (guesses : List Guess) :
    i.rejectAll guesses
      = { i.unlearnAll guesses with provisional := i.provisional.diff guesses } := by
  induction guesses generalizing i with
  | nil => rfl
  | cons g guesses ih =>
    show (i.rejectGuess g).state.rejectAll guesses = _
    rw [state_rejectGuess, ih, unlearnAll_eq, unlearnAll_eq]
    simp only [List.diff_cons]
    rfl

theorem grammar_rejectAll (i : Interpreter) (guesses : List Guess) :
    (i.rejectAll guesses).grammar = i.grammar.retractAll guesses := by
  rw [rejectAll_eq, unlearnAll_eq]

/-- The vocabulary loses their words. -/
theorem vocabulary_rejectAll (i : Interpreter) (guesses : List Guess) :
    (i.rejectAll guesses).vocabulary
      = (guesses.map (·.word)).foldl (fun v word => (v.remove word).1) i.vocabulary := by
  rw [rejectAll_eq, unlearnAll_eq]

theorem provisional_rejectAll (i : Interpreter) (guesses : List Guess) :
    (i.rejectAll guesses).provisional = i.provisional.diff guesses := by
  rw [rejectAll_eq]

/-- Undecided guesses that are rejected are gone, each as often as it was there. -/
theorem diff_append_perm (provisional : List Guess) (horder : order.Perm guesses) :
    ((provisional ++ guesses).diff order).Perm provisional := by
  have hcount : ∀ g ∈ order, order.count g ≤ (provisional ++ guesses).count g := by
    intro g _
    rw [List.count_append, horder.count_eq]
    exact Nat.le_add_left _ _
  -- `diff` takes the first copies away, which may stand among the older guesses. Only the number of
  -- copies counts, so it is the same as taking the new ones.
  have hback : (order ++ (provisional ++ guesses).diff order).Perm (order ++ provisional) :=
    (List.subperm_append_diff_self_of_count_le hcount).trans
      (List.perm_append_comm.trans (horder.symm.append_right provisional))
  exact (List.perm_append_left_iff order).1 hback

/-! ## What a turn tells of its guesses -/

namespace Turn

variable {start t t' : Turn}

/-- The guesses of a turn that stay: those that led to a derivation. -/
def kept (t : Turn) : List Guess := if 0 < t.candidates then t.guesses else []

/-- A turn under way that has added the guesses that stay to the undecided ones, and their words to the
vocabulary. -/
structure Owes (start t : Turn) : Prop where
  result : t.result = none
  awake : t.awake = start.awake
  provisional : t.interpreter.provisional = start.interpreter.provisional ++ t.kept
  grown : start.interpreter.vocabulary.Grown (t.kept.map (·.word)) t.interpreter.vocabulary

/-- A turn with the same guesses, undecided guesses and words, and the same result so far. -/
structure SameDebts (t t' : Turn) : Prop where
  result : t'.result = t.result
  awake : t'.awake = t.awake
  guesses : t'.guesses = t.guesses
  provisional : t'.interpreter.provisional = t.interpreter.provisional
  bins : t'.interpreter.vocabulary.bins = t.interpreter.vocabulary.bins

/-- Debts that stay the same twice stay the same. -/
theorem SameDebts.trans {t'' : Turn} (h : SameDebts t t') (h' : SameDebts t' t'') :
    SameDebts t t'' where
  result := h'.result.trans h.result
  awake := h'.awake.trans h.awake
  guesses := h'.guesses.trans h.guesses
  provisional := h'.provisional.trans h.provisional
  bins := h'.bins.trans h.bins

/-- A turn that makes no guesses owes nothing. -/
theorem SameDebts.owes (h : SameDebts t t') (hresult : t.result = none) (hnone : t.guesses = []) :
    Owes t t' := by
  have hkept : t'.kept = [] := by
    rw [kept, h.guesses, hnone, ite_self]
  refine ⟨h.result.trans hresult, h.awake, by rw [hkept, h.provisional, List.append_nil], ?_⟩
  rw [hkept]
  exact (Vocabulary.grown_refl _ _).congr rfl h.bins

/-- A later stage with the same debts owes what the earlier one did. -/
theorem Owes.of_same (h : Owes start t) (hsame : SameDebts t t')
    (hcandidates : t'.candidates = t.candidates) : Owes start t' := by
  have hkept : t'.kept = t.kept := by rw [kept, kept, hsame.guesses, hcandidates]
  refine ⟨hsame.result.trans h.result, hsame.awake.trans h.awake,
    by rw [hkept, hsame.provisional, h.provisional], ?_⟩
  rw [hkept]
  exact h.grown.congr rfl hsame.bins

/-! ## The stages one by one -/

/-- A parse changes the analysis, the number of candidates and the notes. -/
theorem exists_of_parseSource (h : t.parseSource = .ok t') :
    ∃ analysis candidates notes,
      t' = { t with interpreter := { t.interpreter with analysis }, candidates, notes } := by
  unfold parseSource at h
  simp only at h
  split at h
  · cases h
    exact ⟨_, _, _, rfl⟩
  · cases h

/-- So it changes no debts. -/
theorem sameDebts_parseSource (h : t.parseSource = .ok t') : SameDebts t t' := by
  obtain ⟨_, _, _, rfl⟩ := exists_of_parseSource h
  exact ⟨rfl, rfl, rfl, rfl, rfl⟩

/-- Nor does the stage that it belongs to. -/
theorem sameDebts_parse (h : t.parse = .ok t') : SameDebts t t' := by
  obtain ⟨mid, hmid, h⟩ := exists_of_bind_eq_ok h
  cases h
  have hsame := sameDebts_parseSource hmid
  exact ⟨hsame.result, hsame.awake, hsame.guesses, hsame.provisional, hsame.bins⟩

/-- A repair changes no bin. -/
theorem sameDebts_repair (h : t.repair = .ok t') : SameDebts t t' := by
  obtain ⟨hbins, hresult⟩ := repair_cases t.interpreter.vocabulary t.text
  rcases hresult with hnone | ⟨fixed, hfixed⟩
  · simp only [repair, note, write, hnone] at h
    cases h
    exact ⟨rfl, rfl, rfl, rfl, hbins⟩
  · simp only [repair, note, write, hfixed] at h
    obtain ⟨mid, hmid, h⟩ := exists_of_bind_eq_ok h
    cases h
    have hsame := sameDebts_parseSource hmid
    exact ⟨hsame.result, hsame.awake, hsame.guesses, hsame.provisional, hsame.bins.trans hbins⟩

/-- Nor does a repair, if there is one. -/
theorem sameDebts_mend (h : t.mend = .ok t') : SameDebts t t' := by
  unfold mend at h
  split at h
  · exact sameDebts_repair h
  · cases h
    exact ⟨rfl, rfl, rfl, rfl, rfl⟩

/-- Reading the slots changes the analysis and what is said about the association list. -/
theorem exists_of_readSlots (h : t.readSlots = .ok t') :
    ∃ analysis alist attention,
      t' = { t with interpreter := { t.interpreter with analysis }, alist, attention } := by
  unfold readSlots at h
  split at h
  · cases h
    exact ⟨_, _, _, rfl⟩
  · simp only at h
    split at h
    · cases h
    · cases h
      exact ⟨_, _, _, rfl⟩

/-- Asking for the root changes the analysis. -/
theorem exists_of_root {head : Option String} (h : t.root = .ok (head, t')) :
    ∃ analysis, t' = { t with interpreter := { t.interpreter with analysis } } := by
  unfold root at h
  simp only at h
  split at h
  · cases h
    exact ⟨_, rfl⟩
  · cases h

/-- Extracting the slots changes the analysis and what is said about the association list. -/
theorem exists_of_extract (h : t.extract = .ok t') :
    ∃ analysis alist attention trace notes,
      t' = { t with
        interpreter := { t.interpreter with analysis }, alist, attention, trace, notes } := by
  obtain ⟨mid, hslots, h⟩ := exists_of_bind_eq_ok h
  obtain ⟨⟨head, last⟩, hroot, h⟩ := exists_of_bind_eq_ok h
  obtain ⟨_, _, _, rfl⟩ := exists_of_readSlots hslots
  obtain ⟨_, rfl⟩ := exists_of_root hroot
  cases h
  exact ⟨_, _, _, _, _, rfl⟩

/-- Extracting the slots changes no debts. -/
theorem sameDebts_extract (h : t.extract = .ok t') :
    SameDebts t t' ∧ t'.candidates = t.candidates := by
  obtain ⟨_, _, _, _, _, rfl⟩ := exists_of_extract h
  exact ⟨⟨rfl, rfl, rfl, rfl, rfl⟩, rfl⟩

/-- Guesses that are tried are learnt before the parse. They are kept for a decision if it finds
candidates, and taken back otherwise. -/
theorem settle_cases (h : (t.forGuesses learn).parseSource.map settle = .ok t') :
    ∃ analysis candidates notes,
      (0 < candidates ∧ t' =
        { t with
          interpreter :=
            { t.interpreter.learnAll t.guesses with
              analysis, provisional := t.interpreter.provisional ++ t.guesses }
          candidates, notes })
      ∨ ¬0 < candidates ∧ t' =
        { t with
          interpreter :=
            Interpreter.unlearnAll { t.interpreter.learnAll t.guesses with analysis } t.guesses
          candidates, notes } := by
  obtain ⟨learntNotes, hlearn⟩ := forGuesses_eq learn t
  obtain ⟨parsed, hparse, hsettle⟩ := exists_of_map_eq_ok h
  rw [hlearn] at hparse
  obtain ⟨analysis, candidates, notes, rfl⟩ := exists_of_parseSource hparse
  subst hsettle
  -- the candidates decide whether the guesses stay
  by_cases hfound : 0 < candidates
  · refine ⟨analysis, candidates, notes, .inl ⟨hfound, (if_pos hfound).trans ?_⟩⟩
    have hprovisional : (t.interpreter.learnAll t.guesses).provisional = t.interpreter.provisional := by
      rw [learnAll_eq]
    show Turn.mk .. = _
    rw [← hprovisional]
    rfl
  · obtain ⟨more, hunlearn⟩ := forGuesses_eq unlearn
      { t with
        interpreter := { t.interpreter.learnAll t.guesses with analysis }
        candidates, notes }
    exact ⟨analysis, candidates, more, .inr ⟨hfound, (if_neg hfound).trans hunlearn⟩⟩

/-- Guesses that were tried and stay are undecided, and their words are known. -/
theorem owes_settle (hresult : t.result = none)
    (hapt : ∀ g ∈ t.guesses, g.Apt t.interpreter.vocabulary)
    (h : (t.forGuesses learn).parseSource.map settle = .ok t') : Owes t t' := by
  obtain ⟨analysis, candidates, notes, ⟨hfound, rfl⟩ | ⟨hlost, rfl⟩⟩ := settle_cases h
  · have hkept : (if 0 < candidates then t.guesses else []) = t.guesses := if_pos hfound
    refine ⟨hresult, rfl, ?_, ?_⟩
    · simp only [kept, hkept]
    · simp only [kept, hkept, learnAll_eq]
      exact Vocabulary.grown_foldl_add (Vocabulary.grown_refl _ _) fun _ h => h
  -- the words are forgotten again, and nothing stays
  · have hkept : (if 0 < candidates then t.guesses else []) = [] := if_neg hlost
    have hbins := bins_unlearnAll_learnAll hapt
    simp only [unlearnAll_eq, learnAll_eq] at hbins
    refine ⟨hresult, rfl, ?_, ?_⟩
    · simp only [kept, hkept, List.append_nil, unlearnAll_eq, learnAll_eq]
    · simp only [kept, hkept, unlearnAll_eq, learnAll_eq]
      exact (Vocabulary.grown_refl _ _).congr rfl hbins

/-- Guesses are tried if there are any, and a derivation that they led to dismisses the unknown words. -/
theorem exists_of_guess (h : t.guess = .ok t') :
    ∃ tried inputs outputs unknown,
      (t.withGuesses.guesses = [] ∧ tried = t.withGuesses
        ∨ (t.withGuesses.forGuesses learn).parseSource.map settle = .ok tried)
      ∧ unknown = (if 0 < tried.candidates then [] else tried.unknown)
      ∧ t' = { tried.record "Guess" inputs outputs none with unknown } := by
  rw [guess_eq] at h
  obtain ⟨tried, htried, rfl⟩ := exists_of_map_eq_ok h
  refine ⟨tried, _, _, _, ?_, rfl, rfl⟩
  -- without guesses the stage goes on with the turn as it is, and nothing is settled
  unfold tryGuesses at htried
  split at htried
  · rename_i hempty
    exact .inl ⟨List.isEmpty_iff.1 hempty, (Except.ok.inj htried).symm⟩
  · exact .inr htried

/-- After the stage of guessing, a turn owes the guesses that stay. -/
theorem owes_guess (hresult : t.result = none) (h : t.guess = .ok t') : Owes t t' := by
  obtain ⟨tried, inputs, outputs, unknown, htried, -, rfl⟩ := exists_of_guess h
  have howes : Owes t.withGuesses tried := by
    rcases htried with ⟨hnone, rfl⟩ | htried
    · exact SameDebts.owes ⟨rfl, rfl, rfl, rfl, rfl⟩ hresult hnone
    · refine owes_settle hresult (fun g hg => ?_) htried
      have hmade : g ∈ (t.interpreter.vocabulary.guess t.source).2 := hg
      exact (Guess.apt_of_mem_guess hmade).congr rfl
  exact ⟨howes.result, howes.awake, howes.provisional, howes.grown.congr rfl rfl⟩

/-- So it does if the stage is left out, as there are no guesses then. -/
theorem owes_venture (hresult : t.result = none) (hnone : t.guesses = []) (h : t.venture = .ok t') :
    Owes t t' := by
  unfold venture at h
  split at h
  · exact owes_guess hresult h
  · cases h
    exact SameDebts.owes ⟨rfl, rfl, rfl, rfl, rfl⟩ hresult hnone

/-- A turn that is awake has a result, and what a result names is what stays. The last stage makes
the result from the guesses of the turn, so what it owes is told. -/
theorem owes_finish (h : Owes start t) :
    (start.awake = true → ∃ r, t.finish.result = some r)
      ∧ ∀ r, t.finish.result = some r →
        t.finish.interpreter.provisional = start.interpreter.provisional ++ r.guesses
          ∧ start.interpreter.vocabulary.Grown (r.guesses.map (·.word))
            t.finish.interpreter.vocabulary := by
  unfold finish
  split
  · rename_i hasleep
    simp only [h.awake, Bool.and_eq_true, Bool.not_eq_true'] at hasleep
    refine ⟨fun hawake => ?_, fun r hr => ?_⟩
    · rw [hasleep.1] at hawake
      cases hawake
    · have hnone : t.ignore.result = none := h.result
      rw [hnone] at hr
      cases hr
  · refine ⟨fun _ => ⟨_, rfl⟩, fun r hr => ?_⟩
    cases hr
    exact ⟨h.provisional, h.grown⟩

/-- A whole turn adds the guesses that stay to the undecided ones, and their words to the
vocabulary, and then decides what to make of the utterance. Only venturing guesses matters to what
is owed; the other stages pass it on. -/
theorem exists_owes (hresult : t.result = none) (hnone : t.guesses = []) (h : t.stages = .ok t') :
    ∃ last, t' = last.finish ∧ Owes t last := by
  rw [stages_eq] at h
  obtain ⟨first, hparse, h⟩ := exists_of_bind_eq_ok h
  obtain ⟨second, hmend, h⟩ := exists_of_bind_eq_ok h
  obtain ⟨third, hventure, h⟩ := exists_of_bind_eq_ok h
  obtain ⟨fourth, hextract, h⟩ := exists_of_bind_eq_ok h
  cases h
  have hsame := (sameDebts_parse hparse).trans (sameDebts_mend hmend)
  have howes := @owes_venture second.findUnknown third (hsame.result.trans hresult)
    (hsame.guesses.trans hnone) hventure
  obtain ⟨hextracted, hcandidates⟩ := sameDebts_extract hextract
  have hlast := howes.of_same hextracted hcandidates
  have hbefore : second.findUnknown.interpreter.provisional = t.interpreter.provisional :=
    hsame.provisional
  exact ⟨fourth, rfl, hlast.result, hlast.awake.trans hsame.awake,
    by rw [hlast.provisional, hbefore], hlast.grown.congr hsame.bins.symm rfl⟩

/-- What the result of a turn names is what stays. -/
theorem owes_stages (hresult : t.result = none) (hnone : t.guesses = []) (h : t.stages = .ok t') :
    (t.awake = true → ∃ r, t'.result = some r)
      ∧ ∀ r, t'.result = some r →
        t'.interpreter.provisional = t.interpreter.provisional ++ r.guesses
          ∧ t.interpreter.vocabulary.Grown (r.guesses.map (·.word)) t'.interpreter.vocabulary := by
  obtain ⟨last, rfl, howes⟩ := exists_owes hresult hnone h
  exact owes_finish howes

end Turn

/-! ## Utterances and rejections -/

variable {stamp : Stamp} {text : String} {awake : Bool} {conf : Confidence} {r : Interpretation}

/-- An utterance that has a result adds the guesses that the result names to the undecided ones, and
their words to the vocabulary. -/
theorem guesses_interpret (hbuilt : i.grammar.Built)
    (hresult : (i.interpret stamp (some text) awake conf).result = .ok (some r)) :
    let last := (i.interpret stamp (some text) awake conf).state
    last.provisional = i.provisional ++ r.guesses
      ∧ i.vocabulary.Grown (r.guesses.map (·.word)) last.vocabulary := by
  intro last
  rw [result_interpret, Except.ok.injEq] at hresult
  -- the confidences can be read, or the first parse stops the turn
  rcases conf.readable_or with hconf | ⟨fault, hconf⟩
  · obtain ⟨t, hstages, _, _⟩ :=
      Turn.exists_stages (Turn.follows_begin hbuilt stamp text awake conf) hconf rfl
    have hrun : (Turn.begin i stamp text awake conf).run = t := by rw [Turn.run, hstages]
    rw [hrun] at hresult
    have hlast : last = { t.interpreter with lastTrace := some t.trace } := by
      rw [← hrun]
      rfl
    rw [hlast]
    exact (Turn.owes_stages rfl rfl hstages).2 r hresult
  -- without a parse no guesses are made
  · obtain ⟨t, hstages, hsame⟩ :=
      @Turn.exists_halt (Turn.begin i stamp text awake conf).attend fault hconf
    have hrun : (Turn.begin i stamp text awake conf).run = t.abort fault := by
      rw [Turn.run, hstages]
    have hlast : last = { t.interpreter with lastTrace := some (t.abort fault).trace } := by
      show (i.interpret stamp (some text) awake conf).state = _
      rw [state_interpret, hrun]
      rfl
    rw [hrun] at hresult
    cases hresult
    rw [hlast]
    refine ⟨?_, (Vocabulary.grown_refl _ _).congr rfl hsame.bins⟩
    rw [List.append_nil]
    exact hsame.provisional

/-- A front end that is awake always has a result. -/
theorem exists_result_interpret (hbuilt : i.grammar.Built) (stamp : Stamp) (text : String)
    (conf : Confidence) :
    ∃ r, (i.interpret stamp (some text) true conf).result = .ok (some r) := by
  rw [result_interpret]
  rcases conf.readable_or with hconf | ⟨fault, hconf⟩
  -- a readable confidence lets all stages pass, and what a turn owes at its end is a result
  · obtain ⟨t, hstages, _, _⟩ :=
      Turn.exists_stages (Turn.follows_begin hbuilt stamp text true conf) hconf rfl
    obtain ⟨r, hr⟩ := (Turn.owes_stages rfl rfl hstages).1 rfl
    exact ⟨r, by rw [Turn.run, hstages, hr]⟩
  -- an unreadable one stops the turn at its first parse, but the turn is answered all the same
  · obtain ⟨t, hstages, _⟩ :=
      @Turn.exists_halt (Turn.begin i stamp text true conf).attend fault hconf
    exact ⟨_, by rw [Turn.run, hstages]; rfl⟩

/-- A front end with the same rules, with their numbers, order and statuses, the same attention phrases
and known words with their order, and the same undecided guesses up to their order. -/
structure Restored (i j : Interpreter) : Prop where
  productions : j.grammar.productions = i.grammar.productions
  alerts : j.grammar.alerts = i.grammar.alerts
  bins : j.vocabulary.bins = i.vocabulary.bins
  provisional : j.provisional.Perm i.provisional

/-- Guesses that are taken back by the turn that made them leave nothing to reject. -/
theorem Drops.restored (hbuilt : i.grammar.Built)
    (hknown : ∀ t ∈ i.grammar.terminals, t ≠ Step.wildcard →
      ∀ word, Text.lower word = Text.lower t → i.vocabulary.known word = true)
    (hapt : ∀ q ∈ guesses, q.Apt i.vocabulary) (hdrops : Drops guesses i j) : Restored i j where
  productions := by
    rw [hdrops.grammar]
    exact Grammar.productions_retractAll_of_known hbuilt hapt hknown (.refl _)
  alerts := by
    rw [hdrops.grammar, Grammar.alerts_retractAll fun q hq => (hapt q hq).category_ne_attention,
      Grammar.alerts_extendAll fun q hq => (hapt q hq).category_ne_attention]
  bins := hdrops.bins
  provisional := .of_eq hdrops.provisional

/-- Guesses that were kept can be rejected in any order. Their rules and words go one by one, and
since no guess is about an attention phrase, no phrase goes with them. -/
theorem Keeps.restored (hbuilt : i.grammar.Built)
    (hknown : ∀ t ∈ i.grammar.terminals, t ≠ Step.wildcard →
      ∀ word, Text.lower word = Text.lower t → i.vocabulary.known word = true)
    (hapt : ∀ q ∈ guesses, q.Apt i.vocabulary) (hkeeps : Keeps guesses i j)
    (hgrown : i.vocabulary.Grown (guesses.map (·.word)) j.vocabulary) (horder : order.Perm guesses) :
    Restored i (j.rejectAll order) where
  productions := by
    rw [grammar_rejectAll, hkeeps.grammar]
    exact Grammar.productions_retractAll_of_known hbuilt hapt hknown horder
  alerts := by
    have hcategory : ∀ q ∈ guesses, q.category ≠ Grammar.attention :=
      fun q hq => (hapt q hq).category_ne_attention
    rw [grammar_rejectAll, hkeeps.grammar,
      Grammar.alerts_retractAll fun q hq => hcategory q (horder.mem_iff.1 hq),
      Grammar.alerts_extendAll hcategory]
  bins := by
    rw [vocabulary_rejectAll]
    apply Vocabulary.bins_foldl_remove (hgrown.mono fun word => (horder.map (·.word)).mem_iff.2)
    intro word hword
    obtain ⟨q, hq, rfl⟩ := List.mem_map.1 hword
    have hq := hapt q (horder.mem_iff.1 hq)
    exact ⟨hq.ne_empty, hq.unknown⟩
  provisional := by
    rw [provisional_rejectAll, hkeeps.provisional]
    exact diff_append_perm i.provisional horder

/-- If every word of the grammar is known in any case, rejecting each guess that an utterance tells of,
in any order, leaves the front end as it was before the utterance. -/
theorem interpret_rejects (hbuilt : i.grammar.Built)
    (hknown : ∀ t ∈ i.grammar.terminals, t ≠ Step.wildcard →
      ∀ word, Text.lower word = Text.lower t → i.vocabulary.known word = true)
    (hresult : (i.interpret stamp (some text) awake conf).result = .ok (some r))
    {order : List Guess} (horder : order.Perm r.guesses) :
    Restored i ((i.interpret stamp (some text) awake conf).state.rejectAll order) := by
  obtain ⟨hprovisional, hgrown⟩ := guesses_interpret hbuilt hresult
  have hapt : ∀ q ∈ i.guessesAbout text conf, q.Apt i.vocabulary := fun _ => apt_of_mem_guessesAbout
  -- a turn that keeps no guess tells of none
  have hnone : (i.interpret stamp (some text) awake conf).state.provisional = i.provisional →
      order = [] := by
    intro hsame
    rw [hsame, List.self_eq_append_right] at hprovisional
    rw [hprovisional] at horder
    exact horder.eq_nil
  cases effect_interpret hbuilt stamp text awake conf with
  | same _ same =>
    rw [hnone same.provisional]
    exact ⟨congrArg Grammar.productions same.grammar, congrArg Grammar.alerts same.grammar, same.bins,
      .of_eq same.provisional⟩
  | guessed _ guessed =>
    cases guessed with
    | kept _ keeps _ =>
      have hguesses : r.guesses = i.guessesAbout text conf :=
        List.append_cancel_left (hprovisional.symm.trans keeps.provisional)
      rw [hguesses] at horder hgrown
      exact keeps.restored hbuilt hknown hapt hgrown horder
    | dropped _ drops _ =>
      rw [hnone drops.provisional]
      exact drops.restored hbuilt hknown hapt

/-! ## A guess that helps -/

/-- A grammar of questions about a property. -/
def questions : Grammar :=
  ((fresh.grammar.extend "toplevel" "are <HQ>").grammar.enable (some "toplevel")).1

theorem built_questions : questions.Built := (reached_fresh.built.extend _ _).enable _

theorem productions_questions :
    questions.productions = #[⟨0, "toplevel", [⟨"are", false⟩, ⟨"HQ", true⟩], .top⟩] := by
  have hforms : Grammar.Forms "toplevel" (Text.words "are <HQ>") [⟨"are", false⟩, ⟨"HQ", true⟩] :=
    Grammar.forms_iff.2 ⟨by decide, by decide⟩
  have hproductions : (fresh.grammar.extend "toplevel" "are <HQ>").grammar.productions
      = #[⟨0, "toplevel", [⟨"are", false⟩, ⟨"HQ", true⟩], .active⟩] := by
    rw [Grammar.grammar_extend, Grammar.productions_expand_plain (Grammar.tidy_of_isEmpty rfl rfl)
      (by decide) (by decide) hforms (by simp [fresh])]
    rfl
  have hmatches : Grammar.matchesHead (some "toplevel")
      ⟨0, "toplevel", [⟨"are", false⟩, ⟨"HQ", true⟩], .active⟩ = true := by decide
  simp [questions, Grammar.enable, Grammar.setStatus, hproductions, hmatches]

theorem plain_tall : Grammar.Plain "tall" :=
  Grammar.plain_of_isWordPart (by decide) (by decide)

/-- The grammar with the guess that the second word of `are tall` is a property. -/
theorem productions_questions_tall :
    (questions.extendAll [⟨"tall", "HQ"⟩]).productions
      = #[⟨0, "toplevel", [⟨"are", false⟩, ⟨"HQ", true⟩], .top⟩,
        ⟨1, "HQ", [⟨"tall", false⟩], .active⟩] := by
  have hnew : ∀ p ∈ questions.productions.toList, p.key ≠ Grammar.keyOf "HQ" [⟨"tall", false⟩] := by
    rw [productions_questions]
    decide
  show (questions.extend "HQ" "tall").grammar.productions = _
  rw [Grammar.grammar_extend, Grammar.productions_expand_plain built_questions.tidy plain_tall.nested
    plain_tall.sugarless (plain_tall.forms "HQ") hnew, productions_questions]
  rfl

/-- Without the guess there is no property to ask about, so the text is no question. -/
theorem parses_questions : questions.parses "are tall" .absent = false := by
  have hconf : Confidence.absent.Readable := fun _ => ⟨_, rfl⟩
  rw [← Bool.not_eq_true, Grammar.parses_iff built_questions.coherent hconf
    (by rw [guess_oneWord.1]; exact List.cons_ne_nil _ _) (by simp [productions_questions])]
  rintro ⟨rule, _, tree, htree⟩
  rw [guess_oneWord.1] at htree
  obtain ⟨p, parts, hp, -, hexpands⟩ := Grammar.exists_of_mem_derivations htree
  have honly : ∀ {rule : Nat} {p : Production}, questions.productions[rule]? = some p →
      p = ⟨0, "toplevel", [⟨"are", false⟩, ⟨"HQ", true⟩], .top⟩ := by
    intro rule p hp
    rw [productions_questions] at hp
    simpa using Array.mem_of_getElem? hp
  rw [honly hp] at hexpands
  -- after its first word the one rule needs a property, and no rule makes one
  obtain ⟨_, _, _, _, _, hrest⟩ := (Grammar.Expands.word_iff rfl).1 hexpands
  obtain ⟨_, _, _, _, _, hq, _, hnamed, _⟩ := (Grammar.Expands.head_iff rfl).1 hrest
  rw [honly hq] at hnamed
  exact absurd hnamed (by decide)

/-- With the guess the text is a question: its first word is that of the rule, and its second word
is the property. -/
theorem parses_questions_tall :
    (questions.extendAll [⟨"tall", "HQ"⟩]).parses "are tall" .absent = true := by
  have hbuilt : (questions.extendAll [⟨"tall", "HQ"⟩]).Built := built_questions.extendAll _
  have hconf : Confidence.absent.Readable := fun _ => ⟨_, rfl⟩
  rw [Grammar.parses_iff hbuilt.coherent hconf
    (by rw [guess_oneWord.1]; exact List.cons_ne_nil _ _) (by simp [productions_questions_tall]),
    guess_oneWord.1]
  have htop : (questions.extendAll [⟨"tall", "HQ"⟩]).productions[0]?
      = some ⟨0, "toplevel", [⟨"are", false⟩, ⟨"HQ", true⟩], .top⟩ := by
    rw [productions_questions_tall]
    rfl
  have hguess : (questions.extendAll [⟨"tall", "HQ"⟩]).productions[1]?
      = some ⟨1, "HQ", [⟨"tall", false⟩], .active⟩ := by
    rw [productions_questions_tall]
    rfl
  refine ⟨0, ⟨_, htop, rfl⟩, .node 0 0 2 [.word, .node 1 1 2 [.word]], _, rfl, _, htop, rfl, ?_⟩
  refine .word rfl rfl (.inr (by decide)) (.head rfl hguess rfl rfl ?_ (.nil 2))
  exact .word rfl rfl (.inr (by decide)) (.nil 2)

/-- With these questions and this word a front end takes `tall` for a property: the text does not
parse, a repair leaves it as it is, and the second of its words is unknown. -/
theorem guessesAbout_are_tall (hgrammar : i.grammar = questions) (hvocabulary : i.vocabulary = oneWord)
    (hguessing : i.settings.guessing = true) :
    i.settled "are tall" .absent = "are tall" ∧ i.ventures "are tall" .absent = true
      ∧ i.guessesAbout "are tall" .absent = [⟨"tall", "HQ"⟩] := by
  obtain ⟨htokens, hmended, hany, hguess⟩ := guess_oneWord
  have hunknown : ((tokenize true "are tall").any fun word => !oneWord.known word) = true := by
    rw [htokens]
    exact hany
  have hsettled : i.settled "are tall" .absent = "are tall" := by
    rw [settled, hgrammar, hvocabulary, parses_questions, if_neg Bool.false_ne_true]
    exact hmended
  refine ⟨hsettled, ?_, ?_⟩
  · rw [ventures, hsettled, hgrammar, hvocabulary, hguessing, parses_questions]
    exact hunknown
  · rw [guessesAbout, hsettled, hvocabulary]
    exact hguess

/-- It keeps the guess that makes a question of the text. Without it there is no derivation, so it
is one of the guesses that are tried. -/
theorem keeps_are_tall (hgrammar : i.grammar = questions) (hvocabulary : i.vocabulary = oneWord)
    (hguessing : i.settings.guessing = true) (awake : Bool) :
    Keeps [⟨"tall", "HQ"⟩] i (i.interpret ⟨"", ""⟩ (some "are tall") awake .absent).state := by
  obtain ⟨hsettled, hventures, hguesses⟩ := guessesAbout_are_tall hgrammar hvocabulary hguessing
  have hbuilt : i.grammar.Built := by
    rw [hgrammar]
    exact built_questions
  cases effect_interpret hbuilt ⟨"", ""⟩ "are tall" awake .absent with
  | same quiet _ =>
    rw [quiet (Confidence.readable_elim_text none)] at hventures
    cases hventures
  | guessed _ guessed =>
    rw [hguesses] at guessed
    cases guessed with
    | kept _ keeps _ => exact keeps
    | dropped lost _ _ =>
      rw [hsettled, hgrammar] at lost
      exact absurd (lost.symm.trans parses_questions_tall) Bool.false_ne_true

/-- A front end that can be asked about properties and knows none. -/
def inquirer : Interpreter := { fresh with grammar := questions, vocabulary := oneWord }

/-- Every word of the grammar is known, in any case of its letters. -/
theorem known_inquirer :
    ∀ t ∈ inquirer.grammar.terminals, t ≠ Step.wildcard →
      ∀ word, Text.lower word = Text.lower t → inquirer.vocabulary.known word = true := by
  intro t ht _ word hword
  rw [inquirer, Grammar.terminals, productions_questions] at ht
  rw [List.mem_singleton.1 ht] at hword
  exact known_of_lower_eq_are hword

/-- The guess is rejected, and the front end has only its question again. -/
theorem interpret_rejects_are_tall :
    let last := (inquirer.interpret ⟨"", ""⟩ (some "are tall") true .absent).state
    ∃ r, (inquirer.interpret ⟨"", ""⟩ (some "are tall") true .absent).result = .ok (some r)
      ∧ r.guesses = [⟨"tall", "HQ"⟩]
      ∧ last.grammar.productions
        = #[⟨0, "toplevel", [⟨"are", false⟩, ⟨"HQ", true⟩], .top⟩,
          ⟨1, "HQ", [⟨"tall", false⟩], .active⟩]
      ∧ (last.rejectAll r.guesses).grammar.productions
        = #[⟨0, "toplevel", [⟨"are", false⟩, ⟨"HQ", true⟩], .top⟩]
      ∧ (last.rejectAll r.guesses).vocabulary.bins = [[], ["are"]]
      ∧ (last.rejectAll r.guesses).provisional = [] := by
  intro last
  obtain ⟨r, hresult⟩ :=
    exists_result_interpret (i := inquirer) built_questions ⟨"", ""⟩ "are tall" .absent
  obtain ⟨hprovisional, _⟩ := guesses_interpret (i := inquirer) built_questions hresult
  have hrestored := interpret_rejects (i := inquirer) built_questions known_inquirer hresult (.refl _)
  refine ⟨r, hresult, ?_, ?_, ?_, ?_, ?_⟩
  -- the result names the guesses that were put down as undecided, and there were none before
  · exact List.append_cancel_left (hprovisional.symm.trans (keeps_are_tall rfl rfl rfl true).provisional)
  · rw [show last.grammar = _ from (keeps_are_tall rfl rfl rfl true).grammar]
    exact productions_questions_tall
  · rw [hrestored.productions]
    exact productions_questions
  · rw [hrestored.bins]
    decide
  · exact hrestored.provisional.eq_nil

end Interpreter

end Utterance
