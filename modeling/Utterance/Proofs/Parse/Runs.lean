import Utterance.Proofs.Grammar.Expansion
import Utterance.Proofs.Parse.Spelling

/-!
# Runs of wildcards

A run of wildcards is a longest row of leaves that are wildcards. The score of a derivation counts runs
in each production by itself, so a run that goes on from one production into the next is counted once on
each side. The score is therefore the number of runs of the sentence and, on top of that, the number of
seams: the places between two parts of a node where a run goes on. Runs are counted over the sentence
exactly where there is no seam.
-/

namespace Utterance

/-! ## Blocks of appended steps -/

/-- Whether the last of some steps and the first of those after it are both wildcards. -/
def runsOn (before after : List Step) : Bool :=
  before.getLast?.any Step.isWild && after.head?.any Step.isWild

theorem runsOn_append_singleton (before : List Step) (step : Step) (after : List Step) :
    runsOn (before ++ [step]) after = runsOn [step] after := by
  rw [runsOn, runsOn, List.getLast?_concat, List.getLast?_singleton]

theorem wildBlocks_singleton (step : Step) : wildBlocks [step] = if step.isWild then 1 else 0 := by
  cases h : step.isWild <;> simp [wildBlocks, List.destutter, h]

/-- Blocks come together where wildcards meet: putting two rows of steps together has as many blocks
as both, or one less. -/
theorem wildBlocks_append (before after : List Step) :
    wildBlocks (before ++ after) + (if runsOn before after then 1 else 0)
      = wildBlocks before + wildBlocks after := by
  induction after generalizing before with
  | nil => simp [runsOn, wildBlocks]
  | cons step after ih =>
    have hrest := ih (before ++ [step])
    have hcons := ih [step]
    rw [List.append_assoc, List.singleton_append, runsOn_append_singleton,
      wildBlocks_append_singleton] at hrest
    rw [List.singleton_append, wildBlocks_singleton] at hcons
    rw [runsOn, List.head?_cons, Option.any_some]
    -- whether the step opens a block depends on it and on the step before it
    cases hstep : step.isWild <;> cases hbefore : before.getLast?.any Step.isWild
    all_goals
      simp only [hstep, hbefore, Bool.not_true, Bool.not_false, Bool.and_true, Bool.and_false,
        Bool.and_self, if_true, Bool.false_eq_true, if_false] at hrest hcons ⊢
      omega

/-- The name of a head is in no block. -/
theorem wildBlocks_cons_nonterminal {step : Step} (h : step.nonterminal = true) (steps : List Step) :
    wildBlocks (step :: steps) = wildBlocks steps := by
  have happend := wildBlocks_append [step] steps
  have hwild : step.isWild = false := by simp [Step.isWild, h]
  simpa [runsOn, wildBlocks_singleton, hwild] using happend

/-! ## Seams -/

namespace Tree

mutual

/-- Number of places in a derivation where a run of wildcards goes on from one production into
another. -/
def seams (g : Grammar) : Tree → Nat
  | .word => 0
  | .node rule _ _ parts => seamsOf g (g.stepsAt rule) parts

/-- Number of such places inside the parts that match steps and between them. Two wildcards of one
production that follow each other are in one block and make no seam. -/
def seamsOf (g : Grammar) (steps : List Step) : List Tree → Nat
  | [] => 0
  | part :: rest =>
    match steps with
    | [] => 0
    | step :: steps =>
      (if step.nonterminal then seams g part else 0)
        + (if (step.nonterminal || steps.head?.any Step.nonterminal)
              && runsOn (leavesOf g [step] [part]) (leavesOf g steps rest) then 1 else 0)
        + seamsOf g steps rest

end

theorem seamsOf_nil (g : Grammar) (steps : List Step) : seamsOf g steps [] = 0 := by
  rw [seamsOf]

/-- A word or a wildcard makes a seam if it is one, the name of a head follows, and what that head
derives begins with another. -/
theorem seamsOf_terminal (g : Grammar) {step : Step} (h : step.nonterminal = false)
    (steps : List Step) (part : Tree) (rest : List Tree) :
    seamsOf g (step :: steps) (part :: rest)
      = (if steps.head?.any Step.nonterminal && runsOn [step] (leavesOf g steps rest) then 1 else 0)
        + seamsOf g steps rest := by
  rw [seamsOf, leavesOf_terminal g h, leavesOf_nil]
  simp [h]

/-- The part of a head has its own seams and one more if its last leaf and the next are both
wildcards. -/
theorem seamsOf_nonterminal (g : Grammar) {step : Step} (h : step.nonterminal = true)
    (steps : List Step) (part : Tree) (rest : List Tree) :
    seamsOf g (step :: steps) (part :: rest)
      = part.seams g + (if runsOn (part.leaves g) (leavesOf g steps rest) then 1 else 0)
        + seamsOf g steps rest := by
  rw [seamsOf, leavesOf_nonterminal g h, leavesOf_nil, List.append_nil]
  simp [h]

/-- The seams of a node are those of the production that it stands for. -/
theorem seams_node {g : Grammar} {rule : Nat} {p : Production}
    (hp : g.productions[rule]? = some p) (start stop : Nat) (parts : List Tree) :
    (Tree.node rule start stop parts).seams g = seamsOf g p.steps parts := by
  rw [seams, Grammar.stepsAt_eq hp]

end Tree

namespace Grammar

variable {g : Grammar} {words : List String}

/-- A step that is no head is the first leaf. -/
theorem Expands.head?_leavesOf {steps : List Step} {pos stop : Nat} {parts : List Tree}
    (h : g.Expands words steps pos stop parts) (hhead : steps.head?.any Step.nonterminal = false) :
    (Tree.leavesOf g steps parts).head? = steps.head? := by
  cases h with
  | nil => rw [Tree.leavesOf_nil]
  | word terminal => rw [Tree.leavesOf_terminal g terminal, List.head?_cons, List.head?_cons]
  | head nonterminal => simp [nonterminal] at hhead

/-- Before the name of a head a block of the production ends, so the run of leaves that may go on there is
a seam. Before any other step the block goes on as the run does. -/
theorem Expands.runsOn_split {steps : List Step} {pos stop : Nat} {parts : List Tree}
    (h : g.Expands words steps pos stop parts) (step : Step) :
    (if runsOn [step] (Tree.leavesOf g steps parts) then 1 else 0)
      = (if runsOn [step] steps then 1 else 0)
        + if steps.head?.any Step.nonterminal && runsOn [step] (Tree.leavesOf g steps parts) then 1
          else 0 := by
  cases hhead : steps.head?.any Step.nonterminal with
  | false => simp [runsOn, h.head?_leavesOf hhead]
  | true =>
    have hwild : steps.head?.any Step.isWild = false := by
      obtain ⟨first, hfirst, hnonterminal⟩ := Option.any_eq_true _ _ |>.1 hhead
      simp [hfirst, Step.isWild, hnonterminal]
    simp [runsOn, hwild]

/-- Blocks counted in each production by itself are the runs of the leaves and the seams. The one
count breaks a run wherever a production begins or ends, and each break is a seam. -/
theorem Expands.runs_scores {steps : List Step} {pos stop : Nat} {parts : List Tree}
    (h : g.Expands words steps pos stop parts) :
    wildBlocks steps + (Tree.scores g parts).runs
      = wildBlocks (Tree.leavesOf g steps parts) + Tree.seamsOf g steps parts := by
  induction h with
  | nil pos => simp [Tree.leavesOf_nil, Tree.seamsOf_nil, wildBlocks]
  | @word step steps _ _ _ parts terminal _ _ rest ih =>
    have hblocks := wildBlocks_append [step] steps
    have hleaves := wildBlocks_append [step] (Tree.leavesOf g steps parts)
    have hsplit := rest.runsOn_split step
    -- a word may go on with a run of the steps behind it, in both counts
    rw [Tree.leavesOf_terminal g terminal, Tree.seamsOf_terminal g terminal, Tree.scores_cons,
      Tree.score_word, zero_add]
    rw [List.singleton_append] at hblocks hleaves
    omega
  | @head step steps pos mid _ rule p inner parts nonterminal production _ _ inside _ ihInside ih =>
    have hown : ((Tree.node rule pos mid inner).score g).runs
        = wildBlocks p.steps + (Tree.scores g inner).runs := by
      rw [Tree.score_node, stepsAt_eq production, inside.length_parts, List.take_length,
        Score.runs_add, ownScore]
    have hleaves := wildBlocks_append (Tree.leavesOf g p.steps inner) (Tree.leavesOf g steps parts)
    rw [Tree.leavesOf_nonterminal g nonterminal, Tree.seamsOf_nonterminal g nonterminal,
      Tree.leaves_node production, Tree.seams_node production, wildBlocks_cons_nonterminal nonterminal,
      Tree.scores_cons, Score.runs_add, hown]
    omega

/-- The runs that the score of a derivation counts are those of its leaves and one for each seam. -/
theorem runs_score {rule : Nat} {tree : Tree} (h : tree ∈ g.derivations words rule) :
    (tree.score g).runs = wildBlocks (tree.leaves g) + tree.seams g := by
  obtain ⟨p, parts, hp, rfl, hexpands⟩ := exists_of_mem_derivations h
  rw [Tree.score_node, stepsAt_eq hp, hexpands.length_parts, List.take_length, Score.runs_add,
    ownScore, Tree.leaves_node hp, Tree.seams_node hp]
  exact hexpands.runs_scores

end Grammar

namespace Analysis

/-! ## A run across productions -/

/-- A grammar of notes: a word may be any word, and what follows it as well. -/
def notes : Grammar :=
  ((Grammar.expand { dictation := 5, maxAlerts := 10 } "note" "# <REST>" "").grammar.expand
    "REST" "#" "").grammar

theorem built_notes : notes.Built :=
  ((Grammar.Built.empty 5 10).expand "note" "# <REST>" "").expand "REST" "#" ""

theorem productions_notes :
    notes.productions
      = #[⟨0, "note", [⟨"#", false⟩, ⟨"REST", true⟩], .active⟩,
        ⟨1, "REST", [⟨"#", false⟩], .active⟩] := by
  have hnote : Grammar.Forms "note" (Text.words "# <REST>") [⟨"#", false⟩, ⟨"REST", true⟩] :=
    Grammar.forms_iff.2 ⟨by decide, by decide⟩
  have hrest : Grammar.Forms "REST" (Text.words "#") [⟨"#", false⟩] :=
    Grammar.forms_iff.2 ⟨by decide, by decide⟩
  obtain ⟨hbuilt, hfirst⟩ := (Grammar.Built.empty 5 10).expand_plain (by decide) (by decide) hnote
    (by decide)
  obtain ⟨_, hsecond⟩ := hbuilt.expand_plain (by decide) (by decide) hrest (by rw [hfirst]; decide)
  rw [notes, hsecond, hfirst]
  rfl

/-- The grammar above, where only a note may start a sentence. -/
abbrev topNotes : Grammar := notes.withStatuses fun rule => if rule = 0 then .top else .active

/-- The productions, with the statuses of this grammar. -/
theorem production_topNotes {rule : Nat} {p : Production} :
    topNotes.productions[rule]? = some p
      ↔ (rule = 0 ∧ p = ⟨0, "note", [⟨"#", false⟩, ⟨"REST", true⟩], .top⟩)
        ∨ (rule = 1 ∧ p = ⟨1, "REST", [⟨"#", false⟩], .active⟩) := by
  have hproductions : topNotes.productions
      = #[⟨0, "note", [⟨"#", false⟩, ⟨"REST", true⟩], .top⟩,
        ⟨1, "REST", [⟨"#", false⟩], .active⟩] := by
    simp [topNotes, Grammar.withStatuses, productions_notes]
  rw [hproductions]
  rcases rule with _ | _ | rule
  · simp [eq_comm]
  · simp [eq_comm]
  · simp

/-- The derivation of a note of two words. -/
def memo : Tree := .node 0 0 2 [.word, .node 1 1 2 [.word]]

/-- The sentence has one derivation. -/
theorem mem_derivations_topNotes {rule : Nat} {tree : Tree} :
    tree ∈ topNotes.derivations ["call", "home"] rule ↔ rule = 0 ∧ tree = memo :=
  Grammar.mem_derivations_of_slot production_topNotes ⟨rfl, rfl⟩ rfl rfl rfl rfl rfl rfl (by decide)
    (.inl (by decide)) (.inl (by decide))

/-- Both words of the note were taken up by wildcards. -/
theorem leaves_memo : memo.leaves topNotes = [⟨"#", false⟩, ⟨"#", false⟩] := by
  rw [memo, Tree.leaves_node (production_topNotes.2 (.inl ⟨rfl, rfl⟩)),
    Tree.leavesOf_terminal _ rfl, Tree.leavesOf_nonterminal _ rfl,
    Tree.leaves_node (production_topNotes.2 (.inr ⟨rfl, rfl⟩)), Tree.leavesOf_terminal _ rfl,
    Tree.leavesOf_nil]
  rfl

/-- The score of the note counts one run for each production. -/
theorem score_memo : memo.score topNotes = ⟨2, 2, 2⟩ := by
  rw [memo, Tree.score_node, Grammar.stepsAt_eq (production_topNotes.2 (.inl ⟨rfl, rfl⟩)),
    Tree.scores_cons, Tree.scores_cons, Tree.score_word, Tree.score_node,
    Grammar.stepsAt_eq (production_topNotes.2 (.inr ⟨rfl, rfl⟩)), Tree.scores_cons, Tree.score_word,
    Tree.scores_nil]
  decide

/-- The sentence has words and can be read, so its chart is filled. -/
theorem charted_topNotes :
    Charted topNotes ["call", "home"] (parse topNotes (.words ["call", "home"]) .absent) := by
  have hcoherent : topNotes.Coherent := built_notes.coherent.withStatuses _
  have hproductions : topNotes.productions ≠ #[] := by
    intro hnone
    have hproduction := production_topNotes.2 (.inl ⟨rfl, rfl⟩)
    rw [hnone] at hproduction
    cases hproduction
  have hwords : (Sentence.words ["call", "home"]).toWords ≠ [] := List.cons_ne_nil _ _
  have hread : Confidence.absent.read (Sentence.words ["call", "home"]).toWords.length
      = .ok ([], []) := rfl
  exact charted_parse hcoherent hread hwords hproductions

/-! ## What a parse counts -/

/-- The score of every candidate is that of a derivation of the sentence, namely of the one that its
state is read back as. -/
theorem exists_candidate {g : Grammar} (hg : g.Coherent) {sentence : Sentence} {conf : Confidence}
    {n : Nat} (hn : n < (parse g sentence conf).state.candidates.length) :
    ∃ s, (parse g sentence conf).state.candidate? (some n) = some s
      ∧ (parse g sentence conf).state.chart.tree s ∈ g.derivations sentence.toWords s.item.rule
      ∧ ((parse g sentence conf).state.chart.tree s).score g = s.score := by
  have hcharted : Charted g sentence.toWords (parse g sentence conf) :=
    charted_of_candidates hg (List.ne_nil_of_length_pos (by omega))
  obtain ⟨s, hs, hcovers⟩ :=
    mem_covering.1 (by rw [← hcharted.candidates]; exact List.getElem_mem hn)
  refine ⟨s, ?_, ?_, ((hcharted.saturated hg).traced hs).score_tree (hcharted.saturated hg)⟩
  · rw [candidate?_natCast, List.getElem?_eq_getElem hn, Option.bind_some]
    exact hs
  · rw [hcharted.chart] at hs ⊢
    exact mem_derivations_of_covers hg hs hcovers

/-- The score of every candidate is that of the derivation that its pointers describe. Its runs are the
runs of wildcards among the leaves, one leaf for each word of the sentence, and one more for each seam.
So a candidate has as many runs as the sentence if and only if its derivation has no seam. -/
theorem parse_counts_runs {g : Grammar} (hg : g.Built) (status : Nat → Status) (sentence : Sentence)
    (conf : Confidence) :
    let grammar := g.withStatuses status
    let a := (parse grammar sentence conf).state
    ∀ n : Nat, n < a.candidates.length →
      ∃ s, a.candidate? (some n) = some s ∧ a.score? (some n) = some s.score
        ∧ a.chart.tree s ∈ grammar.derivations sentence.toWords s.item.rule
        ∧ List.Forall₂ Step.Accepts ((a.chart.tree s).leaves grammar) sentence.toWords
        ∧ s.score.runs
          = wildBlocks ((a.chart.tree s).leaves grammar) + (a.chart.tree s).seams grammar
        ∧ (s.score.runs = wildBlocks ((a.chart.tree s).leaves grammar)
            ↔ (a.chart.tree s).seams grammar = 0) := by
  intro grammar a n hn
  obtain ⟨s, hcandidate, hderives, hscore⟩ :=
    exists_candidate (hg.coherent.withStatuses status) hn
  have hruns := Grammar.runs_score hderives
  rw [hscore] at hruns
  refine ⟨s, hcandidate, by rw [score?, hcandidate, Option.map_some], hderives,
    Grammar.forall₂_leaves hderives, hruns, ?_⟩
  rw [hruns]
  exact Nat.add_eq_left

/-- The note is derived, so there is a candidate. -/
theorem candidates_topNotes :
    0 < (parse topNotes (.words ["call", "home"]) .absent).state.candidates.length := by
  have hcoherent : topNotes.Coherent := built_notes.coherent.withStatuses _
  have htop : ∃ p, topNotes.productions[0]? = some p ∧ p.status = .top :=
    ⟨_, production_topNotes.2 (.inl ⟨rfl, rfl⟩), rfl⟩
  have hrule : 0 ∈ (parse topNotes (.words ["call", "home"]) .absent).state.rules :=
    (charted_topNotes.mem_rules hcoherent).2 ⟨htop, memo, mem_derivations_topNotes.2 ⟨rfl, rfl⟩⟩
  rw [← charted_topNotes.length_rules]
  exact List.length_pos_of_mem hrule

/-- One run takes up both words of the note, and with the seam in it the score has two. -/
theorem parse_counts_runs_memo :
    ∃ s, (parse topNotes (.words ["call", "home"]) .absent).state.candidate? (some (0 : Nat)) = some s
      ∧ s.score.runs = 1 + memo.seams topNotes ∧ memo.seams topNotes = 1 := by
  obtain ⟨s, hcandidate, _, hderives, _, hruns, _⟩ :=
    parse_counts_runs built_notes (fun rule => if rule = 0 then .top else .active)
      (.words ["call", "home"]) .absent 0 candidates_topNotes
  rw [(mem_derivations_topNotes.1 hderives).2, leaves_memo] at hruns
  refine ⟨s, hcandidate, hruns, ?_⟩
  have hscore := Grammar.runs_score (mem_derivations_topNotes.2 ⟨rfl, rfl⟩)
  rw [score_memo, leaves_memo] at hscore
  have hblocks : wildBlocks [⟨"#", false⟩, ⟨"#", false⟩] = 1 := by decide
  simp only [hblocks] at hscore
  omega

/-- Runs are not counted over the sentence: both words of the note are in one run, and its score has
two. -/
theorem not_forall_runs_eq_wildBlocks :
    ¬ ∀ (g : Grammar) (status : Nat → Status) (words : List String) (n : Nat) (s : ChartState),
      g.Built → (parse (g.withStatuses status) (.words words) .absent).state.candidate? (some n) = some s →
        s.score.runs = wildBlocks
          (((parse (g.withStatuses status) (.words words) .absent).state.chart.tree s).leaves
            (g.withStatuses status)) := by
  intro hclaim
  have hcoherent : topNotes.Coherent := built_notes.coherent.withStatuses _
  obtain ⟨s, hcandidate, hderives, hscore⟩ := exists_candidate hcoherent candidates_topNotes
  have hruns := hclaim notes _ ["call", "home"] 0 s built_notes hcandidate
  rw [← hscore, (mem_derivations_topNotes.1 hderives).2, score_memo, leaves_memo] at hruns
  revert hruns
  decide

end Analysis

end Utterance
