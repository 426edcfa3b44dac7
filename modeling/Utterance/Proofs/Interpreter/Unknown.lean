import Utterance.Proofs.Interpreter.Asleep

/-!
# Words that are reported as unknown

The words that a result reports as unknown are those that the vocabulary does not know, unless guesses
about them led to a derivation. A guess is made about a word without a role, and a word that begins with a
number has one, known or not. So the two ways of telling unknown words apart agree but for words that begin
with a number and are none.
-/

namespace Utterance

/-- The unknown words are handed through the classification. -/
theorem SpeechAct.unknown_classify (alerts : List String) (a : AssocList) (text : String)
    (unknown : List String) : (classify alerts a text unknown).1.unknown = unknown := by
  simp only [classify]
  split
  · split
    · rfl
    · split <;> rfl
  · rfl

namespace Interpreter

variable {i : Interpreter} {text : String} {conf : Confidence}

/-- The words that the vocabulary does not know, of the text that an utterance is parsed from. -/
def strangers (i : Interpreter) (text : String) (conf : Confidence) : List String :=
  (tokenize true (i.settled text conf)).filter fun word => !i.vocabulary.known word

theorem mem_strangers_iff {word : String} : word ∈ i.strangers text conf
    ↔ word ∈ tokenize true (i.settled text conf) ∧ i.vocabulary.known word = false := by
  rw [strangers, List.mem_filter, Bool.not_eq_true']

namespace Turn

variable {start t t' : Turn} {names : List String}

/-! ## What a turn has found unknown -/

theorem unknown_extract (h : t.extract = .ok t') : t'.unknown = t.unknown := by
  obtain ⟨_, _, _, _, _, rfl⟩ := exists_of_extract h
  rfl

/-- Guesses that led to a derivation dismiss the unknown words. -/
theorem unknown_guess (h : t.guess = .ok t') :
    t'.unknown = if 0 < t'.candidates then [] else t.unknown := by
  obtain ⟨tried, inputs, outputs, unknown, htried, hunknown, rfl⟩ := exists_of_guess h
  rcases htried with ⟨-, rfl⟩ | htried
  · exact hunknown
  · obtain ⟨_, _, _, rfl⟩ := exists_of_settle htried
    exact hunknown

/-- Once guesses are made or not, the words that are unknown are those that the vocabulary did not know,
unless guesses helped. -/
theorem unknown_venture (h : Follows start names t) (hconf : start.confidence.Readable)
    (hparsed : t.Parsed) (hsame : SameStores i t.interpreter)
    (hsource : t.source = i.settled start.text start.confidence)
    (hventure : t.findUnknown.venture = .ok t') :
    t'.unknown = if i.helps start.text start.confidence then []
      else i.strangers start.text start.confidence := by
  have hfound : t.findUnknown.unknown = i.strangers start.text start.confidence := by
    show (tokenize true t.source).filter _ = _
    rw [strangers, hsource]
    simp only [Vocabulary.known_congr hsame.bins]
  -- whether guesses helped is told by what they did to the front end
  obtain ⟨tried, htried, _, hstate, heffect⟩ := exists_venture h hconf hparsed hsame hsource
  obtain rfl : tried = t' := Except.ok.inj (htried.symm.trans hventure)
  rw [venture_eq h hparsed hsame hsource] at hventure
  cases hventures : i.ventures start.text start.confidence with
  | false =>
    rw [hventures, if_neg Bool.false_ne_true] at hventure
    cases hventure
    rw [helps, hventures, Bool.false_and, if_neg Bool.false_ne_true, hfound]
  | true =>
    rw [hventures, if_pos rfl] at hventure
    rw [unknown_guess hventure, candidates_eq hstate, hfound]
    cases heffect with
    | same quiet _ =>
      rw [quiet hconf] at hventures
      cases hventures
    | guessed _ guessed =>
      cases guessed with
      -- the unknown words are cleared just when the guesses left candidates
      | kept found _ candidates =>
        rw [if_pos (List.length_pos_iff.2 candidates), helps, hventures, found]
        rfl
      | dropped lost _ candidates =>
        rw [candidates, helps, lost, Bool.and_false]
        rfl

/-- What is made of an utterance reports the words that the turn has found unknown. -/
theorem unknown_finish (hnone : t.result = none) {r : Interpretation} (hr : t.finish.result = some r) :
    r.unknown = t.unknown := by
  unfold finish at hr
  split at hr
  · have hignored : t.ignore.result = none := hnone
    rw [hignored] at hr
    cases hr
  · cases hr
    exact SpeechAct.unknown_classify _ _ _ _

/-- With confidences that can be read, the result of a turn reports the words that the vocabulary did not
know, unless guesses helped. -/
theorem exists_stages_unknown (h : Follows start ["Attention"] t) (hconf : start.confidence.Readable)
    (hsource : t.source = t.text) :
    ∃ t', t.stages = .ok t' ∧ ∀ r, t'.result = some r →
      r.unknown = if t.interpreter.helps start.text start.confidence then []
        else t.interpreter.strangers start.text start.confidence := by
  obtain ⟨first, second, hparse, hmend, hfollows, hparsed, hsame, hsource⟩ :=
    exists_mended h hconf hsource
  obtain ⟨third, hventure, hfollows', hstate, _⟩ := exists_venture hfollows hconf hparsed hsame hsource
  obtain ⟨fourth, hextract, hfollows'', _⟩ := exists_extract hfollows' hstate
  refine ⟨fourth.finish, stages_of_eq hparse hmend hventure hextract, fun r hr => ?_⟩
  rw [unknown_finish hfollows''.result hr, unknown_extract hextract,
    unknown_venture hfollows hconf hparsed hsame hsource hventure]

end Turn

/-! ## What a result reports -/

variable {stamp : Stamp} {awake : Bool} {r : Interpretation}

/-- The words that a result reports as unknown. -/
theorem unknown_interpret (hbuilt : i.grammar.Built) (hconf : conf.Readable)
    (hresult : (i.interpret stamp (some text) awake conf).result = .ok (some r)) :
    r.unknown = if i.helps text conf then [] else i.strangers text conf := by
  obtain ⟨t, hstages, hunknown⟩ := Turn.exists_stages_unknown
    (Turn.follows_begin hbuilt stamp text awake conf) hconf rfl
  rw [result_interpret, Except.ok.injEq, Turn.run, hstages] at hresult
  exact hunknown r hresult

/-- Without confidences that can be read, no word is reported. -/
theorem unknown_interpret_of_not_readable (hconf : ¬conf.Readable)
    (hresult : (i.interpret stamp (some text) awake conf).result = .ok (some r)) : r.unknown = [] := by
  obtain ⟨fault, hfault⟩ := conf.readable_or.resolve_left hconf
  obtain ⟨t, hstages, _⟩ := @Turn.exists_halt (Turn.begin i stamp text awake conf).attend fault hfault
  rw [result_interpret, Except.ok.injEq, Turn.run, hstages] at hresult
  cases hresult
  rfl

/-- What is reported was not known, whatever the confidences. If they cannot be read nothing is
reported. -/
theorem known_of_mem_unknown (hbuilt : i.grammar.Built)
    (hresult : (i.interpret stamp (some text) awake conf).result = .ok (some r)) {word : String}
    (hword : word ∈ r.unknown) : word ≠ "" ∧ i.vocabulary.known word = false := by
  by_cases hconf : conf.Readable
  · rw [unknown_interpret hbuilt hconf hresult] at hword
    split at hword
    · cases hword
    · obtain ⟨htoken, hknown⟩ := mem_strangers_iff.1 hword
      exact ⟨fun hnone => (solid_of_mem_tokenize htoken).1 (hnone ▸ rfl), hknown⟩
  · rw [unknown_interpret_of_not_readable hconf hresult] at hword
    cases hword

/-- Guesses are no help without a rule that may start a sentence. -/
theorem helps_of_forall_ne_top (hbuilt : i.grammar.Built)
    (htop : ∀ p ∈ i.grammar.productions.toList, p.status ≠ .top) (text : String) (conf : Confidence) :
    i.helps text conf = false := by
  rw [helps, Grammar.parses_of_forall_ne_top (hbuilt.extendAll _).coherent
    (Grammar.forall_ne_top_extendAll hbuilt (fun _ => plain_of_mem_guessesAbout) htop), Bool.and_false]

/-- Whether a word counts as unknown for guesses. -/
theorem unknown_ofSegment_iff {v : Vocabulary} {s : Segment} :
    (Guess.Slot.ofSegment v s).unknown = true ↔ v.role s.word = .unknown := beq_iff_eq

/-- A word is without a role if and only if it is not known and does not begin with a number. So a word
that is reported as unknown counts as unknown for guesses unless it begins with a number. A word of the
text that counts as unknown is reported if it is one of the tokens, unless guesses helped; nothing is
reported then. -/
theorem unknown_unless_number (v : Vocabulary) :
    (∀ word, word ≠ "" →
        (v.role word = .unknown ↔ v.known word = false ∧ Text.startsNumber word = false))
      ∧ (∀ word, Text.startsNumber word = true ↔
        ∃ number : String, number.toList <+: word.toList ∧ Text.isNumber number = true)
      ∧ ∀ (i : Interpreter) (stamp : Stamp) (text : String) (awake : Bool) (conf : Confidence)
          (r : Interpretation), i.vocabulary = v → i.grammar.Built →
        (i.interpret stamp (some text) awake conf).result = .ok (some r) →
        (∀ s ∈ Segment.ofText (i.settled text conf), s.word ∈ r.unknown →
            ((Guess.Slot.ofSegment v s).unknown = true ↔ Text.startsNumber s.word = false))
          ∧ (conf.Readable → i.helps text conf = false → ∀ s ∈ Segment.ofText (i.settled text conf),
            (Guess.Slot.ofSegment v s).unknown = true →
            s.word ∈ tokenize true (i.settled text conf) → s.word ∈ r.unknown)
          ∧ (i.helps text conf = true → r.unknown = []) := by
  refine ⟨fun word hne => Guess.role_eq_unknown_iff hne, fun word => Text.startsNumber_iff, ?_⟩
  intro i stamp text awake conf r hv hbuilt hresult
  subst hv
  refine ⟨fun s _ hword => ?_, fun hconf hhelps s _ hunknown htoken => ?_, fun hhelps => ?_⟩
  · obtain ⟨hne, hknown⟩ := known_of_mem_unknown hbuilt hresult hword
    rw [unknown_ofSegment_iff, Guess.role_eq_unknown_iff hne, hknown]
    exact and_iff_right rfl
  · have hknown := (Guess.known_of_role_eq_unknown (unknown_ofSegment_iff.1 hunknown)).2
    rw [unknown_interpret hbuilt hconf hresult, hhelps, if_neg Bool.false_ne_true]
    exact mem_strangers_iff.2 ⟨htoken, hknown⟩
  · by_cases hconf : conf.Readable
    · rw [unknown_interpret hbuilt hconf hresult, hhelps, if_pos rfl]
    · exact unknown_interpret_of_not_readable hconf hresult

/-- A front end that knows nothing reports both words of a text, and makes a guess about one only. A
report is about all unknown words; a guess needs a place next to a word that says something. -/
theorem unknown_unless_number_zap :
    ∃ r, (fresh.interpret ⟨"", ""⟩ (some "zap 4x4") true .absent).result = .ok (some r)
      ∧ r.unknown = ["zap", "4x4"]
      ∧ fresh.vocabulary.role "zap" = .unknown ∧ "zap" ∈ r.unknown
      ∧ ∀ word ∈ r.unknown, ((Guess.Slot.ofSegment fresh.vocabulary ⟨" ", word⟩).unknown = true
          ↔ Text.startsNumber word = false) := by
  obtain ⟨r, hresult⟩ := exists_result_interpret reached_fresh.built ⟨"", ""⟩ "zap 4x4" .absent
  have hconf : Confidence.absent.Readable := Confidence.readable_elim_text none
  have htop : ∀ p ∈ fresh.grammar.productions.toList, p.status ≠ .top := by simp [fresh]
  have hhelps : fresh.helps "zap 4x4" .absent = false :=
    helps_of_forall_ne_top reached_fresh.built htop _ _
  have hmended : mended fresh.vocabulary "zap 4x4" = "zap 4x4" := by decide +kernel
  have hsettled : fresh.settled "zap 4x4" .absent = "zap 4x4" := by
    rw [settled, Grammar.parses_of_forall_ne_top reached_fresh.built.coherent htop,
      if_neg Bool.false_ne_true, hmended]
  -- there is no rule at all, so no guess helps and the report is about all unknown words
  have hunknown : r.unknown = ["zap", "4x4"] := by
    rw [unknown_interpret reached_fresh.built hconf hresult, hhelps, if_neg Bool.false_ne_true,
      strangers, hsettled]
    decide +kernel
  have hcut : Segment.ofText "zap 4x4" = [⟨"", "zap"⟩, ⟨" ", "4x4"⟩] := by decide +kernel
  obtain ⟨hrole, -, hreports⟩ := unknown_unless_number fresh.vocabulary
  obtain ⟨hreported, hguessed, -⟩ := hreports fresh _ _ _ _ r rfl reached_fresh.built hresult
  rw [hsettled, hcut] at hreported hguessed
  refine ⟨r, hresult, hunknown, (hrole "zap" (by decide)).2 (by decide +kernel), ?_, ?_⟩
  · exact hguessed hconf hhelps ⟨"", "zap"⟩ (List.mem_cons_self ..) (by decide +kernel)
      (by decide +kernel)
  · intro word hword
    have hmem := hword
    rw [hunknown] at hmem
    rcases List.mem_cons.1 hmem with rfl | hmem
    · exact hreported ⟨"", "zap"⟩ (List.mem_cons_self ..) hword
    · obtain rfl := List.mem_singleton.1 hmem
      exact hreported ⟨" ", "4x4"⟩ (List.mem_cons_of_mem _ (List.mem_cons_self ..)) hword

/-- A word that begins with a number and is none is not known, and yet it has the role of a number.
The guesses go by the role, so they take no notice of it. -/
theorem role_of_size :
    fresh.vocabulary.known "4x4" = false ∧ fresh.vocabulary.role "4x4" = .determiner
      ∧ (Guess.Slot.ofSegment fresh.vocabulary ⟨"", "4x4"⟩).unknown = false := by
  decide +kernel

end Interpreter

end Utterance
