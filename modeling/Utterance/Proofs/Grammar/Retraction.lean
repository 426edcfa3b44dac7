import Utterance.Proofs.Grammar.Expansion

/-!
# Teaching and retracting

Retracting an expansion keeps the other productions in their order and renumbers them. An expansion
that is one word makes one production, so teaching it adds that production at the end unless it is
there up to case, and retracting it removes what is the same up to case and nothing else.
-/

namespace Utterance.Grammar

variable {g : Grammar} {head word : String}

/-! ## Renumbering -/

/-- Productions with the numbers from `n` on. -/
def renumberFrom (n : Nat) : List Production → List Production
  | [] => []
  | p :: ps => { p with id := n } :: renumberFrom (n + 1) ps

/-- Productions numbered by their positions. -/
def renumber (ps : List Production) : List Production := renumberFrom 0 ps

/-- Productions that are numbered by their positions keep their numbers. -/
theorem renumberFrom_eq_self {n : Nat} {ps : List Production}
    (h : ∀ i p, ps[i]? = some p → p.id = n + i) : renumberFrom n ps = ps := by
  induction ps generalizing n with
  | nil => rfl
  | cons p ps ih =>
    have hp : p.id = n := h 0 p rfl
    -- behind the first, numbers and positions are both one higher
    have htail : renumberFrom (n + 1) ps = ps := by
      apply ih
      intro i q hq
      rw [h (i + 1) q hq]
      omega
    rw [renumberFrom, htail, ← hp]

/-- The productions of a coherent grammar are numbered by their positions. -/
theorem Coherent.renumber_eq (h : g.Coherent) : renumber g.productions.toList = g.productions.toList := by
  apply renumberFrom_eq_self
  intro i p hp
  rw [Array.getElem?_toList] at hp
  rw [h.id_eq hp, Nat.zero_add]

/-- Up to its number, every production stays. -/
theorem mem_renumberFrom {n : Nat} {ps : List Production} {p : Production} (h : p ∈ ps) :
    ∃ id, { p with id } ∈ renumberFrom n ps := by
  induction ps generalizing n with
  | nil => cases h
  | cons q ps ih =>
    rw [renumberFrom]
    rcases List.mem_cons.1 h with rfl | h
    · exact ⟨n, List.mem_cons_self ..⟩
    · obtain ⟨id, hid⟩ := @ih (n + 1) h
      exact ⟨id, List.mem_cons_of_mem _ hid⟩

/-- Up to their numbers, there are no others. -/
theorem exists_of_mem_renumberFrom {n : Nat} {ps : List Production} {p : Production}
    (h : p ∈ renumberFrom n ps) : ∃ q ∈ ps, { q with id := p.id } = p := by
  induction ps generalizing n with
  | nil => cases h
  | cons q ps ih =>
    rw [renumberFrom] at h
    rcases List.mem_cons.1 h with rfl | h
    · exact ⟨q, List.mem_cons_self .., rfl⟩
    · obtain ⟨r, hr, heq⟩ := ih h
      exact ⟨r, List.mem_cons_of_mem _ hr, heq⟩

/-- A choice by anything but numbers can be made before or after renumbering. -/
theorem renumberFrom_filter_renumberFrom {keep : Production → Bool}
    (hkeep : ∀ p id, keep { p with id } = keep p) (m n : Nat) (ps : List Production) :
    renumberFrom m ((renumberFrom n ps).filter keep) = renumberFrom m (ps.filter keep) := by
  induction ps generalizing m n with
  | nil => rfl
  | cons p ps ih =>
    rw [renumberFrom, List.filter_cons, List.filter_cons, hkeep]
    split
    · rw [renumberFrom, renumberFrom, ih]
    · exact ih m (n + 1)

/-- Productions that are pushed one after the other stand at the end in their order, with the next
numbers. -/
theorem productions_foldl_push (ps : List Production) (g : Grammar) :
    (ps.foldl (fun g p => g.push p.head p.steps p.status) g).productions.toList
      = g.productions.toList ++ renumberFrom g.productions.size ps := by
  induction ps generalizing g with
  | nil => simp [renumberFrom]
  | cons p ps ih =>
    rw [List.foldl_cons, ih]
    simp [push, renumberFrom]

/-- A grammar that is given productions has just these, numbered by their positions. -/
theorem productions_withProductions (g : Grammar) (ps : List Production) :
    (g.withProductions ps).productions.toList = renumber ps := by
  rw [withProductions, productions_foldl_push]
  rfl

theorem alerts_withProductions (g : Grammar) (ps : List Production) :
    (g.withProductions ps).alerts = g.alerts :=
  withProductions_preserves (P := fun g' => g'.alerts = g.alerts) (fun _ _ _ hg => hg) rfl

/-! ## Retracting -/

/-- The grammar of what an expansion of `head` stands for. -/
def probe (g : Grammar) (head expansion : String) : Grammar :=
  (Grammar.expand { dictation := g.dictation, maxAlerts := 0 } head expansion
    ("retract " ++ head)).grammar

/-- Whether a retraction leaves a production alone. -/
def spares (g : Grammar) (head expansion : String) (p : Production) : Bool :=
  !(g.probe head expansion).keys.contains p.key

/-- Retracting keeps what it spares, in its order, with new numbers. If nothing is removed the
numbers stay the same, as they are those of the places. -/
theorem productions_retract (h : g.Coherent) (head expansion : String) :
    (g.retract head expansion).grammar.productions.toList
      = renumber (g.productions.toList.filter (g.spares head expansion)) := by
  unfold retract
  simp only
  split
  · rename_i hnone
    -- nothing is removed, so everything is spared
    have hall : g.productions.toList.filter (g.spares head expansion) = g.productions.toList := by
      apply List.filter_eq_self.2
      apply List.length_filter_eq_length_iff.1
      have hle := List.length_filter_le (g.spares head expansion) g.productions.toList
      have hsize : g.productions.toList.length = g.productions.size := Array.length_toList
      have hnone : g.productions.size
          - (g.productions.toList.filter (g.spares head expansion)).length = 0 := hnone
      omega
    rw [hall, h.renumber_eq]
  · split
    · exact productions_withProductions _ _
    · exact productions_withProductions _ _

/-- Only retracting an attention phrase changes the attention phrases. -/
theorem alerts_retract (hhead : head ≠ attention) (expansion : String) :
    (g.retract head expansion).grammar.alerts = g.alerts := by
  unfold retract
  simp only [if_neg hhead]
  split
  · rfl
  · exact alerts_withProductions _ _

/-- Only teaching an attention phrase changes the attention phrases. -/
theorem alerts_extend (hhead : head ≠ attention) (expansion : String) :
    (g.extend head expansion).grammar.alerts = g.alerts := by
  apply extend_preserves (P := fun g' => g'.alerts = g.alerts)
  apply expand_preserves (P := fun g' => g'.alerts = g.alerts) _ rfl
  intro _ _ _ hg _ _ _
  rw [← hg]
  simp [push, remember, hhead]

/-! ## One word -/

/-- A text that stands for itself in a rule. -/
structure Plain (word : String) : Prop where
  isWord : Text.IsWord word
  sugarless : word.toList.any Sugar.isSugar = false
  nested : Sugar.isNested word.toList = true
  opens : word.toList.head?.any isOpening = false
  closes : word.toList.getLast?.any isClosing = false

/-- The steps of a rule for one word. -/
def wordSteps (word : String) : List Step := [⟨word, false⟩]

/-- A plain word makes a production of one step for any head. -/
theorem Plain.forms (h : Plain word) (head : String) : Forms head (Text.words word) (wordSteps word) := by
  rw [Text.words_eq_singleton h.isWord]
  refine ⟨.cons (.word h.opens h.closes) .nil, List.cons_ne_nil _ _, ?_⟩
  intro first hfirst hnonterminal
  cases hfirst
  cases hnonterminal

/-- The lines that one word stands for. -/
theorem Plain.variants (h : Plain word) (limit : Nat) :
    (Sugar.variants limit word.toList).map String.ofList = [word] := by
  rw [Sugar.variants_eq_singleton h.sugarless, List.map_singleton, String.ofList_toList]

/-- The key of the production for one word. -/
def wordKey (head word : String) : RuleKey := keyOf head (wordSteps word)

/-- What is like the production for one word is one for the same word up to case. -/
theorem exists_of_key_eq_wordKey {p : Production} (h : p.key = wordKey head word) :
    Text.lower p.head = Text.lower head
      ∧ ∃ t, p.steps = wordSteps t ∧ Text.lower t = Text.lower word := by
  simp only [Production.key, wordKey, keyOf, wordSteps, RuleKey.mk.injEq, List.map_cons,
    List.map_nil] at h
  obtain ⟨hhead, hsteps⟩ := h
  obtain ⟨step, hstep, hfolded⟩ := List.map_eq_singleton_iff.1 hsteps
  simp only [Step.folded, Step.mk.injEq] at hfolded
  refine ⟨hhead, step.symbol, ?_, hfolded.1⟩
  rw [hstep, wordSteps, ← hfolded.2]

/-- Teaching one word adds its production at the end, or nothing if it is there up to case. There is
no sugar in it, so it is its own and only variant. -/
theorem Plain.expand_cases (h : Plain word) (hg : g.Tidy) (head whence : String) :
    ((g.expand head word whence).grammar = g
        ∧ ∃ p ∈ g.productions.toList, p.key = wordKey head word)
      ∨ (g.expand head word whence).grammar
          = (g.remember head (wordSteps word)).push head (wordSteps word) .active
        ∧ ∀ p ∈ g.productions.toList, p.key ≠ wordKey head word := by
  simp only [expand, h.nested, h.variants, Bool.not_true, Bool.false_eq_true, if_false,
    List.foldl_cons, List.foldl_nil]
  generalize (if whence.isEmpty = true then head else whence) = place
  rcases @Growth.addPlain_cases { grammar := g } hg head place word with
    ⟨hsame, _, hthere⟩ | ⟨steps, hforms, hnew, hgrown, _⟩
  · exact .inl ⟨hsame, hthere _ (h.forms head)⟩
  · rw [hforms.steps_eq (h.forms head)] at hnew hgrown
    exact .inr ⟨hgrown, hnew⟩

/-- Teaching is an expansion. -/
theorem grammar_extend (g : Grammar) (head expansion : String) :
    (g.extend head expansion).grammar = (g.expand head expansion ("extend " ++ head)).grammar := by
  unfold extend
  simp only
  split <;> rfl

/-- Teaching a plain word puts productions of that word at the end, if any. -/
theorem Plain.productions_extend (h : Plain word) (hg : g.Tidy) (head : String) :
    ∃ new, (g.extend head word).grammar.productions.toList = g.productions.toList ++ new
      ∧ ∀ p ∈ new, p.head = head ∧ p.steps = wordSteps word ∧ p.status = .active := by
  rw [grammar_extend]
  rcases h.expand_cases hg head ("extend " ++ head) with ⟨hsame, _⟩ | ⟨hgrown, _⟩
  · exact ⟨[], by rw [hsame, List.append_nil], by simp⟩
  · refine ⟨[⟨g.productions.size, head, wordSteps word, .active⟩], ?_, by simp⟩
    rw [hgrown]
    simp only [push, remember_productions, Array.toList_push]

/-- Retracting one word spares what has another key. -/
theorem Plain.spares_eq (h : Plain word) (g : Grammar) (head : String) (p : Production) :
    g.spares head word p = (p.key != wordKey head word) := by
  have hempty : Tidy { dictation := g.dictation, maxAlerts := 0 } := tidy_of_isEmpty rfl rfl
  have hkeys : (g.probe head word).keys.contains p.key = true ↔ p.key = wordKey head word := by
    rw [probe, (hempty.expand head word _).keys,
      productions_expand_plain hempty h.nested h.sugarless (h.forms head) (by simp)]
    simp only [List.push_toArray, List.nil_append, List.mem_singleton, exists_eq_left]
    exact eq_comm
  rw [spares, Bool.eq_iff_iff, Bool.not_eq_true', ← Bool.not_eq_true, hkeys]
  simp

/-- Retracting one word removes what is the same up to case. -/
theorem Plain.productions_retract (h : Plain word) (hg : g.Coherent) (head : String) :
    (g.retract head word).grammar.productions.toList
      = renumber (g.productions.toList.filter (·.key != wordKey head word)) := by
  rw [Grammar.productions_retract hg]
  congr 1
  exact List.filter_congr fun p _ => h.spares_eq g head p

end Utterance.Grammar
