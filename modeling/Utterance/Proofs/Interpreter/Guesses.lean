import Utterance.Interpreter
import Utterance.Proofs.Grammar.Retraction
import Utterance.Proofs.Vocabulary.Guess

/-!
# Guesses learnt and taken back

A turn learns all its guesses at once and takes all of them back if they do not help. Learning them
puts rules for one word each at the end of the grammar. Taking them back removes every rule that is
like one of them, and what is left has its old order; the words of the guesses were not known before,
so the vocabulary is as it was.
-/

namespace Utterance

/-! ## The rule of a guess -/

/-- A word of a text stands for itself in a rule: its characters are none of those that sugar is
written with, and it is read as one token. -/
theorem Grammar.plain_of_isWordPart {word : String} (hne : word ≠ "")
    (hall : word.toList.all Segment.isWordPart = true) : Plain word := by
  have hparts := List.all_eq_true.1 hall
  -- every condition says of some sign that the word does not have it
  have hnot : ∀ {d : Char}, Segment.isWordPart d = false → ∀ c ∈ word.toList, c ≠ d :=
    fun hd c hc => Segment.ne_of_isWordPart (hparts c hc) hd
  have hsugar : ∀ c ∈ word.toList, Sugar.isSugar c = false := by
    intro c hc
    simp only [Sugar.isSugar, Bool.or_eq_false_iff, beq_eq_false_iff_ne]
    exact ⟨⟨⟨hnot (by decide) c hc, hnot (by decide) c hc⟩, hnot (by decide) c hc⟩,
      hnot (by decide) c hc⟩
  have hopening : ∀ c ∈ word.toList, isOpening c = false := by
    intro c hc
    simp only [isOpening, Bool.or_eq_false_iff, beq_eq_false_iff_ne]
    exact ⟨hnot (by decide) c hc, hnot (by decide) c hc⟩
  have hclosing : ∀ c ∈ word.toList, isClosing c = false := by
    intro c hc
    simp only [isClosing, Bool.or_eq_false_iff, beq_eq_false_iff_ne]
    exact ⟨hnot (by decide) c hc, hnot (by decide) c hc⟩
  -- a word, no sugar, nested, and no brackets at its ends
  refine ⟨⟨?_, ?_⟩, ?_, ?_, ?_, ?_⟩
  · simpa using hne
  · exact fun c hc => Segment.isBlank_of_isWordPart (hparts c hc)
  · rw [List.any_eq_false]
    exact fun c hc => by rw [hsugar c hc]; exact Bool.false_ne_true
  · apply Sugar.isNested_of_nested
    apply Sugar.nested_of_not_mem
    · exact fun hmem => hnot (by decide) _ hmem rfl
    · exact fun hmem => hnot (by decide) _ hmem rfl
  · cases hhead : word.toList.head? with
    | none => rfl
    | some c => exact hopening c (List.mem_of_head? hhead)
  · cases hlast : word.toList.getLast? with
    | none => rfl
    | some c => exact hclosing c (List.mem_of_getLast? hlast)

namespace Guess

variable {v : Vocabulary} {g : Guess}

/-- The key of the rule that a guess is learnt as. -/
def key (g : Guess) : RuleKey := Grammar.wordKey g.category g.word

theorem Apt.plain (h : g.Apt v) : Grammar.Plain g.word :=
  Grammar.plain_of_isWordPart h.ne_empty (List.all_eq_true.2 h.parts)

end Guess

/-! ## The grammar -/

namespace Grammar

/-- The grammar with the rules of some guesses. -/
def extendAll (g : Grammar) (guesses : List Guess) : Grammar :=
  guesses.foldl (fun g q => (g.extend q.category q.word).grammar) g

/-- The grammar without the rules of some guesses. -/
def retractAll (g : Grammar) (guesses : List Guess) : Grammar :=
  guesses.foldl (fun g q => (g.retract q.category q.word).grammar) g

variable {g : Grammar} {guesses : List Guess}

/-- Guesses that are learnt are rules that are added. -/
theorem Built.extendAll (h : g.Built) (guesses : List Guess) : (g.extendAll guesses).Built := by
  induction guesses generalizing g with
  | nil => exact h
  | cons q guesses ih => exact ih (h.extend q.category q.word)

/-- Guesses that are taken back are rules that are taken away. -/
theorem Built.retractAll (h : g.Built) (guesses : List Guess) : (g.retractAll guesses).Built := by
  induction guesses generalizing g with
  | nil => exact h
  | cons q guesses ih => exact ih (h.retract q.category q.word)

/-- Guesses are learnt as rules at the end, each for one word. A guess whose rule is there already
adds none. -/
theorem productions_extendAll (h : g.Built) (hplain : ∀ q ∈ guesses, Plain q.word) :
    ∃ new, (g.extendAll guesses).productions.toList = g.productions.toList ++ new
      ∧ ∀ p ∈ new, ∃ q ∈ guesses, p.head = q.category ∧ p.steps = wordSteps q.word
        ∧ p.status = .active := by
  induction guesses generalizing g with
  | nil => exact ⟨[], (List.append_nil _).symm, by simp⟩
  | cons q guesses ih =>
    obtain ⟨new, hnew, hfirst⟩ :=
      (hplain q (List.mem_cons_self ..)).productions_extend h.tidy q.category
    obtain ⟨more, hmore, hrest⟩ := ih (h.extend q.category q.word)
      fun r hr => hplain r (List.mem_cons_of_mem _ hr)
    refine ⟨new ++ more, ?_, fun p hp => ?_⟩
    · rw [← List.append_assoc, ← hnew]
      exact hmore
    · rcases List.mem_append.1 hp with hp | hp
      · exact ⟨q, List.mem_cons_self .., hfirst p hp⟩
      · obtain ⟨r, hr, hrule⟩ := hrest p hp
        exact ⟨r, List.mem_cons_of_mem _ hr, hrule⟩

/-- No guess is about an attention phrase, so none adds one. -/
theorem alerts_extendAll (hcategory : ∀ q ∈ guesses, q.category ≠ attention) :
    (g.extendAll guesses).alerts = g.alerts := by
  induction guesses generalizing g with
  | nil => rfl
  | cons q guesses ih =>
    rw [← alerts_extend (g := g) (hcategory q (List.mem_cons_self ..)) q.word]
    exact ih fun r hr => hcategory r (List.mem_cons_of_mem _ hr)

/-- Nor does taking guesses back remove one. -/
theorem alerts_retractAll (hcategory : ∀ q ∈ guesses, q.category ≠ attention) :
    (g.retractAll guesses).alerts = g.alerts := by
  induction guesses generalizing g with
  | nil => rfl
  | cons q guesses ih =>
    rw [← alerts_retract (g := g) (hcategory q (List.mem_cons_self ..)) q.word]
    exact ih fun r hr => hcategory r (List.mem_cons_of_mem _ hr)

/-- Whether a production is unlike the rules of all guesses. -/
def spared (guesses : List Guess) (p : Production) : Bool :=
  guesses.all fun q => p.key != q.key

/-- Taking back guesses keeps what is unlike all of them, in its order. The numbers change with
every retraction, so they are given anew at the end. -/
theorem productions_retractAll (h : g.Built) (hplain : ∀ q ∈ guesses, Plain q.word) :
    (g.retractAll guesses).productions.toList
      = renumber (g.productions.toList.filter (spared guesses)) := by
  induction guesses generalizing g with
  | nil =>
    show g.productions.toList = renumber (g.productions.toList.filter fun _ => true)
    rw [List.filter_true, h.coherent.renumber_eq]
  | cons q guesses ih =>
    have hfirst := (hplain q (List.mem_cons_self ..)).productions_retract h.coherent q.category
    have hrest := ih (h.retract q.category q.word) fun r hr => hplain r (List.mem_cons_of_mem _ hr)
    calc (g.retractAll (q :: guesses)).productions.toList
        = renumber ((g.retract q.category q.word).grammar.productions.toList.filter
            (spared guesses)) := hrest
      _ = renumber ((g.productions.toList.filter (·.key != q.key)).filter (spared guesses)) := by
          -- numbers play no part in the filter, so renumbering once at the end is enough
          rw [hfirst]
          exact renumberFrom_filter_renumberFrom (fun _ _ => rfl) 0 0 _
      _ = renumber (g.productions.toList.filter (spared (q :: guesses))) := by
          rw [List.filter_filter]
          congr 1
          apply List.filter_congr
          exact fun p _ => Bool.and_comm _ _

/-- Taking back what was learnt leaves what is unlike all guesses. -/
theorem productions_retractAll_extendAll (h : g.Built) (hplain : ∀ q ∈ guesses, Plain q.word) :
    ((g.extendAll guesses).retractAll guesses).productions.toList
      = renumber (g.productions.toList.filter (spared guesses)) := by
  obtain ⟨new, hnew, hrules⟩ := productions_extendAll h hplain
  -- every rule that was learnt is like the guess that it was learnt for
  have hgone : new.filter (spared guesses) = [] := by
    rw [List.filter_eq_nil_iff]
    intro p hp hspared
    obtain ⟨q, hq, hhead, hsteps, _⟩ := hrules p hp
    have hkey : p.key = q.key := by
      rw [Production.key, hhead, hsteps]
      rfl
    have := List.all_eq_true.1 hspared q hq
    simp [hkey] at this
  rw [productions_retractAll (h.extendAll guesses) hplain, hnew, List.filter_append, hgone,
    List.append_nil]

end Grammar

/-! ## The front end -/

namespace Interpreter

/-- The front end with all guesses learnt. -/
def learnAll (i : Interpreter) (guesses : List Guess) : Interpreter :=
  guesses.foldl (fun i g => (i.learn g.category g.word).1) i

/-- The front end with all guesses taken back. -/
def unlearnAll (i : Interpreter) (guesses : List Guess) : Interpreter :=
  guesses.foldl (fun i g => (i.unlearn g.category g.word).1) i

/-- Learning guesses adds their rules to the grammar and their words to the vocabulary. The two are
changed independently, so they can be looked at one after the other. -/
theorem learnAll_eq (i : Interpreter) (guesses : List Guess) :
    i.learnAll guesses
      = { i with
          grammar := i.grammar.extendAll guesses
          vocabulary := (guesses.map (·.word)).foldl (fun v word => (v.add word).1) i.vocabulary } := by
  induction guesses generalizing i with
  | nil => rfl
  | cons g guesses ih => exact ih (i.learn g.category g.word).1

/-- Unlearning them takes both away again. -/
theorem unlearnAll_eq (i : Interpreter) (guesses : List Guess) :
    i.unlearnAll guesses
      = { i with
          grammar := i.grammar.retractAll guesses
          vocabulary := (guesses.map (·.word)).foldl (fun v word => (v.remove word).1)
            i.vocabulary } := by
  induction guesses generalizing i with
  | nil => rfl
  | cons g guesses ih => exact ih (i.unlearn g.category g.word).1

/-- Taking back apt guesses restores the vocabulary. -/
theorem bins_unlearnAll_learnAll {i : Interpreter} {guesses : List Guess}
    (hapt : ∀ g ∈ guesses, g.Apt i.vocabulary) :
    ((i.learnAll guesses).unlearnAll guesses).vocabulary.bins = i.vocabulary.bins := by
  rw [unlearnAll_eq, learnAll_eq]
  apply Vocabulary.bins_foldl_remove
    (Vocabulary.grown_foldl_add (Vocabulary.grown_refl _ _) fun _ h => h)
  intro word hword
  obtain ⟨g, hg, rfl⟩ := List.mem_map.1 hword
  exact ⟨(hapt g hg).ne_empty, (hapt g hg).unknown⟩

end Interpreter

end Utterance
