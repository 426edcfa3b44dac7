import Mathlib.Data.List.Destutter
import Utterance.Proofs.Score
import Utterance.Tree

/-!
# Derivations

What it means that a production derives words, said without a chart. A derivation is a tree: each
node names a production that may be used, and has one part for each step, in order. A word or a
wildcard takes up one word of the sentence, the name of a head takes up what a production of that
head derives.

The score of a tree is counted off the tree itself: the words that wildcards took up, the maximal
blocks of wildcards inside each node's production, and the nodes.
-/

namespace Utterance

/-! ## Which trees are derivations -/

/-- Whether a step that is no head takes up a word: a wildcard takes up any, a word only itself, up to
case. -/
def Step.Accepts (step : Step) (word : String) : Prop :=
  step.isWild = true ∨ Text.lower step.symbol = Text.lower word

namespace Grammar

/-- The steps of the production at a position. -/
def stepsAt (g : Grammar) (rule : Nat) : List Step :=
  match g.productions[rule]? with
  | some p => p.steps
  | none => []

theorem stepsAt_eq {g : Grammar} {rule : Nat} {p : Production} (h : g.productions[rule]? = some p) :
    g.stepsAt rule = p.steps := by
  simp [stepsAt, h]

/-- The parts of a tree match steps, one after the other, over the words from a position to just
before another. -/
inductive Expands (g : Grammar) (words : List String) :
    List Step → Nat → Nat → List Tree → Prop where
  | nil (pos : Nat) : Expands g words [] pos pos []
  /-- A word or a wildcard takes up one word. -/
  | word {step : Step} {steps : List Step} {pos stop : Nat} {word : String} {parts : List Tree}
      (terminal : step.nonterminal = false) (said : words[pos]? = some word)
      (accepts : step.Accepts word) (rest : Expands g words steps (pos + 1) stop parts) :
      Expands g words (step :: steps) pos stop (.word :: parts)
  /-- The name of a head takes up what a usable production of that head derives. -/
  | head {step : Step} {steps : List Step} {pos mid stop rule : Nat} {p : Production}
      {inner parts : List Tree} (nonterminal : step.nonterminal = true)
      (production : g.productions[rule]? = some p) (usable : p.status.isUsable = true)
      (named : Text.lower p.head = Text.lower step.symbol)
      (inside : Expands g words p.steps pos mid inner)
      (rest : Expands g words steps mid stop parts) :
      Expands g words (step :: steps) pos stop (.node rule pos mid inner :: parts)

/-- Whether a tree derives words: its root is a usable production whose steps its parts match. -/
def Derivation (g : Grammar) (words : List String) : Tree → Prop
  | .word => False
  | .node rule start stop parts =>
    ∃ p, g.productions[rule]? = some p ∧ p.status.isUsable = true
      ∧ g.Expands words p.steps start stop parts

/-- The derivations of a whole sentence by the production at a position. -/
def derivations (g : Grammar) (words : List String) (rule : Nat) : Set Tree :=
  { tree | ∃ parts, tree = .node rule 0 words.length parts ∧ g.Derivation words tree }

/-- A derivation of a sentence, taken apart: its root is a production whose steps derive all the
words. -/
theorem exists_of_mem_derivations {g : Grammar} {words : List String} {rule : Nat} {tree : Tree}
    (h : tree ∈ g.derivations words rule) :
    ∃ p parts, g.productions[rule]? = some p ∧ tree = .node rule 0 words.length parts
      ∧ g.Expands words p.steps 0 words.length parts := by
  obtain ⟨parts, rfl, p, hp, _, hexpands⟩ := h
  exact ⟨p, parts, hp, rfl, hexpands⟩

namespace Expands

variable {g : Grammar} {words : List String}

section Steps

variable {step : Step} {steps : List Step} {pos stop : Nat} {parts : List Tree}

/-- No steps derive no words. -/
theorem nil_iff : g.Expands words [] pos stop parts ↔ stop = pos ∧ parts = [] := by
  constructor
  · intro h
    cases h
    exact ⟨rfl, rfl⟩
  · rintro ⟨rfl, rfl⟩
    exact .nil stop

/-- A step that is no head takes up one word that it accepts, and the others take up what follows. -/
theorem word_iff (hterminal : step.nonterminal = false) :
    g.Expands words (step :: steps) pos stop parts
      ↔ ∃ word rest, words[pos]? = some word ∧ step.Accepts word ∧ parts = .word :: rest
        ∧ g.Expands words steps (pos + 1) stop rest := by
  constructor
  · intro h
    cases h with
    | word _ said accepts hrest => exact ⟨_, _, said, accepts, rfl, hrest⟩
    | head nonterminal =>
      rw [hterminal] at nonterminal
      cases nonterminal
  · rintro ⟨word, rest, said, accepts, rfl, hrest⟩
    exact .word hterminal said accepts hrest

/-- The name of a head takes up what some usable production of that head derives, and the other
steps take up what follows. -/
theorem head_iff (hnonterminal : step.nonterminal = true) :
    g.Expands words (step :: steps) pos stop parts
      ↔ ∃ rule p mid inner rest, g.productions[rule]? = some p ∧ p.status.isUsable = true
        ∧ Text.lower p.head = Text.lower step.symbol ∧ parts = .node rule pos mid inner :: rest
        ∧ g.Expands words p.steps pos mid inner ∧ g.Expands words steps mid stop rest := by
  constructor
  · intro h
    cases h with
    | word terminal =>
      rw [hnonterminal] at terminal
      cases terminal
    | head _ production usable named inside hrest =>
      exact ⟨_, _, _, _, _, production, usable, named, rfl, inside, hrest⟩
  · rintro ⟨rule, p, mid, inner, rest, production, usable, named, rfl, inside, hrest⟩
    exact .head hnonterminal production usable named inside hrest

/-- One step that is no head takes up one word. -/
theorem single_iff (hterminal : step.nonterminal = false) :
    g.Expands words [step] pos stop parts
      ↔ (∃ word, words[pos]? = some word ∧ step.Accepts word) ∧ stop = pos + 1 ∧ parts = [.word] := by
  rw [word_iff hterminal]
  constructor
  · rintro ⟨word, rest, said, accepts, rfl, hrest⟩
    obtain ⟨rfl, rfl⟩ := nil_iff.1 hrest
    exact ⟨⟨word, said, accepts⟩, rfl, rfl⟩
  · rintro ⟨⟨word, said, accepts⟩, rfl, rfl⟩
    exact ⟨word, [], said, accepts, rfl, .nil _⟩

end Steps

/-- There is one part for each step. -/
theorem length_parts {steps : List Step} {pos stop : Nat} {parts : List Tree}
    (h : g.Expands words steps pos stop parts) : parts.length = steps.length := by
  induction h with
  | nil pos => rfl
  | word _ _ _ _ ih => simp [ih]
  | head _ _ _ _ _ _ _ ih => simp [ih]

/-- Expansions of consecutive words come together. -/
theorem append {steps more : List Step} {pos mid stop : Nat} {parts others : List Tree}
    (h : g.Expands words steps pos mid parts) (h' : g.Expands words more mid stop others) :
    g.Expands words (steps ++ more) pos stop (parts ++ others) := by
  induction h with
  | nil pos => exact h'
  | word terminal said accepts _ ih => exact .word terminal said accepts (ih h')
  | head nonterminal production usable named inside _ _ ih =>
    exact .head nonterminal production usable named inside (ih h')

end Expands

/-- If there are two productions, one of a word and a slot and one for what fills the slot, then two
words have one derivation. -/
theorem mem_derivations_of_slot {g : Grammar} {phrase filled : Production} {lead slot filler : Step}
    {said filling : String}
    (hproductions : ∀ {rule : Nat} {p : Production}, g.productions[rule]? = some p
      ↔ (rule = 0 ∧ p = phrase) ∨ (rule = 1 ∧ p = filled))
    (husable : phrase.status.isUsable = true ∧ filled.status.isUsable = true)
    (hphrase : phrase.steps = [lead, slot]) (hfilled : filled.steps = [filler])
    (hlead : lead.nonterminal = false) (hslot : slot.nonterminal = true)
    (hfiller : filler.nonterminal = false)
    (hfills : Text.lower filled.head = Text.lower slot.symbol)
    (hother : Text.lower phrase.head ≠ Text.lower slot.symbol) (hsaid : lead.Accepts said)
    (hfilling : filler.Accepts filling) {rule : Nat} {tree : Tree} :
    tree ∈ g.derivations [said, filling] rule
      ↔ rule = 0 ∧ tree = .node 0 0 2 [.word, .node 1 1 2 [.word]] := by
  constructor
  · intro h
    obtain ⟨p, parts, hp, rfl, hexpands⟩ := exists_of_mem_derivations h
    rcases hproductions.1 hp with ⟨rfl, rfl⟩ | ⟨rfl, rfl⟩
    · rw [hphrase, Expands.word_iff hlead] at hexpands
      obtain ⟨_, rest, _, _, rfl, hrest⟩ := hexpands
      obtain ⟨_, q, mid, inner, others, hq, _, hnamed, rfl, hinside, hothers⟩ :=
        (Expands.head_iff hslot).1 hrest
      rcases hproductions.1 hq with ⟨rfl, rfl⟩ | ⟨rfl, rfl⟩
      · exact absurd hnamed hother
      · rw [hfilled, Expands.single_iff hfiller] at hinside
        obtain ⟨_, rfl, rfl⟩ := hinside
        obtain ⟨_, rfl⟩ := Expands.nil_iff.1 hothers
        exact ⟨rfl, rfl⟩
    -- what fills the slot is one word
    · rw [hfilled, Expands.single_iff hfiller] at hexpands
      exact absurd hexpands.2.1 (by simp)
  · rintro ⟨rfl, rfl⟩
    have hfirst := hproductions.2 (.inl ⟨rfl, rfl⟩)
    have hsecond := hproductions.2 (.inr ⟨rfl, rfl⟩)
    refine ⟨_, rfl, phrase, hfirst, husable.1, ?_⟩
    rw [hphrase]
    refine .word hlead rfl hsaid (.head hslot hsecond husable.2 hfills ?_ (.nil 2))
    rw [hfilled]
    exact .word hfiller rfl hfilling (.nil 2)

end Grammar

/-! ## Scores of trees -/

/-- Number of maximal blocks of wildcards in a row: of steps in a row that are alike in this only one
is kept, and those that are wildcards are counted. -/
def wildBlocks (steps : List Step) : Nat :=
  ((steps.map Step.isWild).destutter (· ≠ ·)).count true

/-- What a node adds to the score of its tree, given the steps that have a part. -/
def ownScore (steps : List Step) : Score := ⟨steps.countP Step.isWild, wildBlocks steps, 1⟩

namespace Tree

mutual

/-- Score of a tree: the words that wildcards took up, the blocks of wildcards of all nodes, and the
nodes. -/
def score (g : Grammar) : Tree → Score
  | .word => 0
  | .node rule _ _ parts => ownScore ((g.stepsAt rule).take parts.length) + scores g parts

/-- Score of several trees. -/
def scores (g : Grammar) : List Tree → Score
  | [] => 0
  | t :: ts => t.score g + scores g ts

end

@[simp] theorem score_word (g : Grammar) : Tree.word.score g = 0 := by rw [score]

/-- The score of a node is what its own steps cost and what its parts cost. -/
theorem score_node (g : Grammar) (rule start stop : Nat) (parts : List Tree) :
    (Tree.node rule start stop parts).score g
      = ownScore ((g.stepsAt rule).take parts.length) + scores g parts := by
  rw [score]

@[simp] theorem scores_nil (g : Grammar) : scores g [] = 0 := by rw [scores]

@[simp] theorem scores_cons (g : Grammar) (t : Tree) (ts : List Tree) :
    scores g (t :: ts) = t.score g + scores g ts := by
  rw [scores]

/-- Scores of lists of trees add up. -/
theorem scores_append (g : Grammar) (ts us : List Tree) :
    scores g (ts ++ us) = scores g ts + scores g us := by
  induction ts with
  | nil => simp
  | cons t ts ih => simp [ih, add_assoc]

end Tree

/-! ## One step at a time -/

/-- How the number of blocks changes when a flag is put behind a row of them: it grows by one if a
block begins there. -/
theorem count_destutter'_append (flags : List Bool) (flag last : Bool) :
    ((flags ++ [last]).destutter' (· ≠ ·) flag).count true
      = (flags.destutter' (· ≠ ·) flag).count true
        + if last && !(flag :: flags).getLast (by simp) then 1 else 0 := by
  -- by induction from the left; the last flag is compared with whatever comes to stand before it
  induction flags generalizing flag with
  | nil => cases flag <;> cases last <;> decide
  | cons next flags ih =>
    have hlast : (flag :: next :: flags).getLast (by simp) = (next :: flags).getLast (by simp) :=
      List.getLast_cons (by simp)
    rw [List.cons_append, List.destutter'_cons, List.destutter'_cons, hlast]
    by_cases hne : flag ≠ next
    -- a new block begins, and the old one is done
    · rw [if_pos hne, if_pos hne, List.count_cons, List.count_cons, ih next]
      omega
    · rw [if_neg hne, if_neg hne]
      have hsame : flag = next := by simpa using hne
      subst hsame
      exact ih flag

/-- A further step opens a block if it is a wildcard and the step before it is none. The parser
counts in this way, one step at a time. -/
theorem wildBlocks_append_singleton (steps : List Step) (step : Step) :
    wildBlocks (steps ++ [step])
      = wildBlocks steps + if step.isWild && !(steps.getLast?.any Step.isWild) then 1 else 0 := by
  cases steps with
  | nil =>
    simp only [wildBlocks, List.nil_append, List.map_cons, List.map_nil, List.destutter,
      List.destutter'_nil, List.getLast?_nil, Option.any_none, Bool.not_false, Bool.and_true]
    cases step.isWild <;> rfl
  | cons first steps =>
    have hlast : ((first :: steps).getLast?.any Step.isWild)
        = (first.isWild :: steps.map Step.isWild).getLast (by simp) := by
      rw [List.getLast?_eq_some_getLast (List.cons_ne_nil first steps), Option.any_some,
        ← List.getLast_map (f := Step.isWild) (by simp)]
      rfl
    simp only [wildBlocks, List.cons_append, List.map_cons, List.map_append, List.map_nil,
      List.destutter]
    rw [count_destutter'_append, hlast]

/-- What matching one more step adds to the score of its node. -/
def stepCost (steps : List Step) (dot : Nat) : Score :=
  if (steps[dot]?).any Step.isWild then Chart.wildScore steps dot else 0

/-- Matching the steps one by one adds up to the score of the node. This is where the counting of
the chart, which sees one step at a time, meets the counting of blocks over the whole production. -/
theorem ownScore_take_succ {steps : List Step} {dot : Nat} (h : dot < steps.length) :
    ownScore (steps.take (dot + 1)) = ownScore (steps.take dot) + stepCost steps dot := by
  have htake : steps.take (dot + 1) = steps.take dot ++ [steps[dot]] :=
    List.take_succ_eq_append_getElem h
  -- the step before the dot is the last of those that are matched
  have hlast : (steps.take dot).getLast?.any Step.isWild
      = (decide (0 < dot) && (steps[dot - 1]?).any Step.isWild) := by
    rw [List.getLast?_take]
    by_cases hdot : dot = 0
    · simp [hdot]
    · have hsome : steps[dot - 1]? = some steps[dot - 1] := List.getElem?_eq_getElem (by omega)
      have hpos : 0 < dot := by omega
      simp [hdot, hsome, hpos]
  rw [htake]
  ext
  -- word by word: one wildcard more counts
  · simp only [ownScore, stepCost, List.countP_append, List.getElem?_eq_getElem h, Option.any_some,
      Score.wild_add, Chart.wildScore]
    cases hw : steps[dot].isWild <;> simp [hw]
  -- a wildcard begins a new run unless the step before it is one as well
  · simp only [ownScore, stepCost, List.getElem?_eq_getElem h, Option.any_some, Score.runs_add,
      Chart.wildScore, wildBlocks_append_singleton, hlast]
    cases hw : steps[dot].isWild
    · simp
    · cases (decide (0 < dot) && (steps[dot - 1]?).any Step.isWild) <;> simp
  · simp only [ownScore, stepCost, Score.nodes_add, Chart.wildScore]
    split <;> rfl

/-- Nothing is added for the name of a head. -/
theorem stepCost_of_nonterminal {steps : List Step} {dot : Nat} {step : Step}
    (h : steps[dot]? = some step) (hn : step.nonterminal = true) : stepCost steps dot = 0 := by
  simp [stepCost, h, Step.isWild, hn]

theorem ownScore_nil : ownScore [] = Score.start := rfl

end Utterance
