import Utterance.Proofs.Parse.Correctness
import Utterance.Proofs.Parse.Selection

/-!
# The spelling of a sentence

The leaves of a derivation are the words and wildcards of its productions from left to right, and there
is one for each word of the sentence. Spelling a derivation writes each position once: a wildcard leaves
the word as it was said, a fixed word puts in the spelling of the grammar. As a fixed word matches only
what is the same in lower case, the spelling is the sentence again up to case. Charts are filled from
words in lower case, so a sentence and its spelling have the same chart and all that follows from it.
-/

namespace Utterance

/-! ## Leaves -/

namespace Tree

mutual

/-- The words and wildcards of a derivation, from left to right. -/
def leaves (g : Grammar) : Tree → List Step
  | .word => []
  | .node rule _ _ parts => leavesOf g (g.stepsAt rule) parts

/-- The words and wildcards among steps and in the parts that match the others. -/
def leavesOf (g : Grammar) (steps : List Step) : List Tree → List Step
  | [] => []
  | part :: rest =>
    match steps with
    | [] => []
    | step :: steps => (if step.nonterminal then leaves g part else [step]) ++ leavesOf g steps rest

end

theorem leavesOf_nil (g : Grammar) (steps : List Step) : leavesOf g steps [] = [] := by
  rw [leavesOf]

/-- A step that takes up a word is a leaf itself. -/
theorem leavesOf_terminal (g : Grammar) {step : Step} (h : step.nonterminal = false)
    (steps : List Step) (part : Tree) (rest : List Tree) :
    leavesOf g (step :: steps) (part :: rest) = step :: leavesOf g steps rest := by
  rw [leavesOf]
  simp [h]

/-- The name of a head has the leaves of its part. -/
theorem leavesOf_nonterminal (g : Grammar) {step : Step} (h : step.nonterminal = true)
    (steps : List Step) (part : Tree) (rest : List Tree) :
    leavesOf g (step :: steps) (part :: rest) = part.leaves g ++ leavesOf g steps rest := by
  rw [leavesOf]
  simp [h]

/-- The leaves of a node are those of its production's steps. -/
theorem leaves_node {g : Grammar} {rule : Nat} {p : Production}
    (hp : g.productions[rule]? = some p) (start stop : Nat) (parts : List Tree) :
    (Tree.node rule start stop parts).leaves g = leavesOf g p.steps parts := by
  rw [leaves, Grammar.stepsAt_eq hp]

end Tree

/-- What a step that takes up a word is spelled as. -/
def Step.spelled (step : Step) (word : String) : String :=
  if step.isWild then word else step.symbol

/-- Spelling a word changes at most its case. -/
theorem Step.Accepts.lower_spelled {step : Step} {word : String} (h : step.Accepts word) :
    Text.lower (step.spelled word) = Text.lower word := by
  unfold Step.spelled
  split
  · rfl
  · rename_i hwild
    exact h.resolve_left hwild

namespace Grammar.Expands

variable {g : Grammar} {words : List String} {steps : List Step} {pos stop : Nat}
  {parts : List Tree}

/-- There is one leaf for each word that is covered. -/
theorem length_leavesOf (h : g.Expands words steps pos stop parts) :
    pos + (Tree.leavesOf g steps parts).length = stop := by
  induction h with
  | nil pos => simp [Tree.leavesOf_nil]
  | word terminal _ _ _ ih =>
    rw [Tree.leavesOf_terminal g terminal, List.length_cons]
    omega
  | head nonterminal production _ _ _ _ ihInside ih =>
    rw [Tree.leavesOf_nonterminal g nonterminal, Tree.leaves_node production, List.length_append]
    omega

/-- Each leaf takes up the word at its place, counted from where the derivation begins. -/
theorem leavesOf_accepts (h : g.Expands words steps pos stop parts) {k : Nat} {step : Step}
    (hk : (Tree.leavesOf g steps parts)[k]? = some step) :
    ∃ word, words[pos + k]? = some word ∧ step.Accepts word := by
  -- by induction on the expansion, with `k` counted from the position of the first step
  induction h generalizing k with
  | nil pos => simp [Tree.leavesOf_nil] at hk
  | @word first _ pos _ said _ terminal hsaid accepts _ ih =>
    rw [Tree.leavesOf_terminal g terminal] at hk
    cases k with
    | zero =>
      simp only [List.getElem?_cons_zero, Option.some.injEq] at hk
      subst hk
      exact ⟨said, hsaid, accepts⟩
    | succ k =>
      obtain ⟨word, hword, haccepts⟩ := ih (by simpa using hk)
      exact ⟨word, by rw [← hword]; congr 1; omega, haccepts⟩
  | @head _ _ pos mid _ _ p inner _ nonterminal production _ _ inside rest ihInside ih =>
    rw [Tree.leavesOf_nonterminal g nonterminal, Tree.leaves_node production] at hk
    have hlength := inside.length_leavesOf
    -- a leaf of the tree in front, or one of the trees after it
    by_cases hlt : k < (Tree.leavesOf g p.steps inner).length
    · rw [List.getElem?_append_left hlt] at hk
      exact ihInside hk
    · rw [List.getElem?_append_right (by omega)] at hk
      obtain ⟨word, hword, haccepts⟩ := ih hk
      exact ⟨word, by rw [← hword]; congr 1; omega, haccepts⟩

end Grammar.Expands

/-! ## What spelling writes -/

/-- Spelling leaves step by step: between `pos` and the last leaf each word is spelled as its leaf says,
and all other words stay as they are. -/
structure Spells (said : Array String) (leaves : List Step) (pos : Nat)
    (spelling spelling' : Array String) : Prop where
  size_eq : spelling'.size = spelling.size
  outside : ∀ i, (i < pos ∨ pos + leaves.length ≤ i) → spelling'[i]? = spelling[i]?
  inside : ∀ k step word, leaves[k]? = some step → said[pos + k]? = some word →
    pos + k < spelling.size → spelling'[pos + k]? = some (step.spelled word)

theorem Spells.nil (said : Array String) (pos : Nat) (spelling : Array String) :
    Spells said [] pos spelling spelling :=
  ⟨rfl, fun _ _ => rfl, fun k step word hk => by simp at hk⟩

/-- One leaf spells one word and leaves the others alone. -/
theorem Spells.singleton (said : Array String) (step : Step) (pos : Nat) (spelling : Array String) :
    Spells said [step] pos spelling
      (spelling.setIfInBounds pos (step.spelled ((said[pos]?).getD ""))) where
  size_eq := by simp
  outside i hi := by
    have hne : pos ≠ i := by
      simp only [List.length_singleton] at hi
      omega
    rw [Array.getElem?_setIfInBounds, if_neg hne]
  inside k step' word hk hword hlt := by
    -- there is one leaf only, and its place is the one that was set
    cases k with
    | zero =>
      simp only [List.getElem?_cons_zero, Option.some.injEq] at hk
      subst hk
      rw [Nat.add_zero] at hword hlt ⊢
      rw [Array.getElem?_setIfInBounds, if_pos rfl, if_pos hlt, hword, Option.getD_some]
    | succ k => simp at hk

/-- Spelling one row of leaves and then the next spells both, as they are about different places. -/
theorem Spells.append {said spelling spelling' spelling'' : Array String} {leaves more : List Step}
    {pos mid : Nat} (h : Spells said leaves pos spelling spelling') (hmid : pos + leaves.length = mid)
    (h' : Spells said more mid spelling' spelling'') :
    Spells said (leaves ++ more) pos spelling spelling'' where
  size_eq := h'.size_eq.trans h.size_eq
  outside i hi := by
    rw [List.length_append] at hi
    rw [h'.outside i (by omega), h.outside i (by omega)]
  inside k step word hk hword hlt := by
    -- the second row starts where the first ends, so a place belongs to one of them
    by_cases hleft : k < leaves.length
    · rw [List.getElem?_append_left hleft] at hk
      rw [h'.outside _ (by omega)]
      exact h.inside k step word hk hword hlt
    · rw [List.getElem?_append_right (by omega)] at hk
      have hplace : pos + k = mid + (k - leaves.length) := by omega
      rw [hplace] at hword hlt ⊢
      exact h'.inside _ step word hk hword (by rw [h.size_eq]; exact hlt)

/-- Spelling a derivation spells its leaves: the recursion over productions and parts writes the
same words as one pass over the leaves would. -/
theorem Grammar.Expands.spells {g : Grammar} {words : List String} {steps : List Step}
    {pos stop : Nat} {parts : List Tree} (h : g.Expands words steps pos stop parts)
    (said spelling : Array String) :
    Spells said (Tree.leavesOf g steps parts) pos spelling
      (Tree.spellParts g said steps pos parts spelling).1 := by
  induction h generalizing spelling with
  | nil pos =>
    rw [Tree.leavesOf_nil, Tree.spellParts]
    exact .nil said pos spelling
  | @word step _ pos _ _ _ terminal _ _ _ ih =>
    rw [Tree.leavesOf_terminal g terminal, Tree.spellParts]
    simp only [terminal, Bool.false_eq_true, if_false, Tree.endFrom]
    exact (Spells.singleton said step pos spelling).append rfl (ih _)
  | @head _ _ pos mid _ rule p inner _ nonterminal production _ _ inside _ ihInside ih =>
    rw [Tree.leavesOf_nonterminal g nonterminal, Tree.leaves_node production, Tree.spellParts]
    simp only [nonterminal, if_true, Tree.endFrom, Tree.spell, production]
    -- spelling inside the part cannot fail
    have hfault := inside.spellParts_snd said pos spelling
    generalize hspelled : Tree.spellParts g said p.steps pos inner spelling = spelled at hfault ⊢
    obtain ⟨spelling', fault⟩ := spelled
    simp only at hfault
    subst hfault
    have hinside := ihInside spelling
    rw [hspelled] at hinside
    exact hinside.append inside.length_leavesOf (ih _)

/-- The leaves of a derivation of a whole sentence take up its words one by one. -/
theorem Grammar.forall₂_leaves {g : Grammar} {words : List String} {rule : Nat} {tree : Tree}
    (h : tree ∈ g.derivations words rule) : List.Forall₂ Step.Accepts (tree.leaves g) words := by
  obtain ⟨parts, rfl, p, hp, _, hexpands⟩ := h
  rw [Tree.leaves_node hp, List.forall₂_iff_get]
  have hlength := hexpands.length_leavesOf
  rw [Nat.zero_add] at hlength
  refine ⟨hlength, fun i hi hi' => ?_⟩
  obtain ⟨word, hword, haccepts⟩ := hexpands.leavesOf_accepts (List.getElem?_eq_getElem hi)
  rw [Nat.zero_add, List.getElem?_eq_getElem hi', Option.some.injEq] at hword
  simpa [hword] using haccepts

/-- A derivation of a whole sentence is spelled leaf by leaf. Spelling writes each word at its own
place, so the places are compared one by one. -/
theorem Grammar.spell_eq_zipWith {g : Grammar} {words : List String} {rule : Nat} {tree : Tree}
    (h : tree ∈ g.derivations words rule) :
    (tree.spell g words.toArray words.toArray).1.toList
      = List.zipWith Step.spelled (tree.leaves g) words := by
  have hleaves := (forall₂_leaves h).length_eq
  obtain ⟨parts, rfl, p, hp, _, hexpands⟩ := h
  rw [Tree.leaves_node hp] at hleaves ⊢
  have hspells := hexpands.spells words.toArray words.toArray
  rw [Tree.spell, hp]
  apply List.ext_getElem?
  intro i
  rw [Array.getElem?_toList]
  by_cases hi : i < words.length
  · have hi' : i < (Tree.leavesOf g p.steps parts).length := by omega
    have hword : words.toArray[0 + i]? = some words[i] := by simp [hi]
    have hplace := hspells.inside i _ _ (List.getElem?_eq_getElem hi') hword (by simpa using hi)
    rw [Nat.zero_add] at hplace
    simp [hplace, List.getElem?_zipWith, List.getElem?_eq_getElem hi, List.getElem?_eq_getElem hi']
  · rw [hspells.outside i (by omega)]
    simp [List.getElem?_zipWith, List.getElem?_eq_none (show words.length ≤ i by omega)]

/-- Spelling leaf by leaf changes at most the case of the words. -/
theorem lower_zipWith_spelled {leaves : List Step} {words : List String}
    (h : List.Forall₂ Step.Accepts leaves words) :
    (List.zipWith Step.spelled leaves words).map Text.lower = words.map Text.lower := by
  induction h with
  | nil => rfl
  | cons haccepts _ ih => simp [haccepts.lower_spelled, ih]

/-- Spelling a second time changes nothing. -/
theorem zipWith_spelled_spelled (leaves : List Step) (words : List String) :
    List.zipWith Step.spelled leaves (List.zipWith Step.spelled leaves words)
      = List.zipWith Step.spelled leaves words := by
  induction leaves generalizing words with
  | nil => rfl
  | cons step leaves ih =>
    cases words with
    | nil => rfl
    | cons word words =>
      simp only [List.zipWith_cons_cons, ih, List.cons.injEq, and_true, Step.spelled]
      split <;> rfl

namespace Analysis

/-! ## Parsing the spelling again -/

/-- Charts are filled from words in lower case only. -/
theorem ofWords_congr {g : Grammar} {words words' : List String}
    (h : words.map Text.lower = words'.map Text.lower) :
    Task.ofWords g words = Task.ofWords g words' := by
  rw [Task.ofWords, Task.ofWords, h]

/-- What a parse with candidates leaves behind was charted. -/
theorem charted_of_candidates {g : Grammar} (hg : g.Coherent) {sentence : Sentence}
    {conf : Confidence} (hne : (parse g sentence conf).state.candidates ≠ []) :
    Charted g sentence.toWords (parse g sentence conf) :=
  (charted_or_uncharted hg sentence conf).resolve_right fun h => hne h.candidates

/-- A parse with candidates had words and productions to work with. -/
theorem filled_of_candidates {g : Grammar} {sentence : Sentence} {conf : Confidence}
    (hne : (parse g sentence conf).state.candidates ≠ []) :
    sentence.toWords ≠ [] ∧ g.productions ≠ #[] := by
  constructor
  · intro hnil
    exact hne (uncharted_parse (.inr (.inl hnil))).candidates
  · intro hnil
    exact hne (uncharted_parse (.inr (.inr hnil))).candidates

/-- A second parse that finds the same chart and the same candidates. -/
structure Repeats (a a' : Analysis) : Prop where
  chart : a'.chart = a.chart
  candidates : a'.candidates = a.candidates
  scores : a'.scores = a.scores
  selected : a'.selected = a.selected

/-- Sentences that are the same up to case are charted alike. -/
theorem Charted.repeats {g : Grammar} {words words' : List String} {o o' : Outcome Analysis Nat}
    (h : Charted g words o) (h' : Charted g words' o')
    (hlower : words'.map Text.lower = words.map Text.lower) : Repeats o.state o'.state := by
  have htask : Task.ofWords g words' = Task.ofWords g words := ofWords_congr hlower
  have hchart : o'.state.chart = o.state.chart := by rw [h'.chart, h.chart, htask]
  have hcandidates : o'.state.candidates = o.state.candidates := by
    rw [h'.candidates, h.candidates, hchart, htask]
  have hscores : o'.state.scores = o.state.scores := by
    rw [Analysis.scores, Analysis.scores, hchart, hcandidates]
  exact ⟨hchart, hcandidates, hscores, by rw [h'.selected, h.selected, hcandidates, hscores]⟩

/-- The two parses have the same candidates under the same numbers. -/
theorem Repeats.candidate?_eq {a a' : Analysis} (h : Repeats a a') (n : Option Int) :
    a'.candidate? n = a.candidate? n := by
  unfold candidate?
  rw [h.chart, h.candidates, h.selected]

/-- The selected derivation of a sentence is that of its spelling, so spelling it again changes
nothing. -/
theorem Repeats.spelling_eq {g : Grammar} {words : List String} {a a' : Analysis}
    {s s' : ChartState} (h : Repeats a a') (hs : Selected g words a s)
    (hs' : Selected g a.spelling a' s') : a'.spelling = a.spelling := by
  have hsame : s' = s := by
    have hcandidate := hs'.candidate
    rw [h.candidate?_eq, hs.candidate] at hcandidate
    exact (Option.some.inj hcandidate).symm
  have hspelling : a.spelling = List.zipWith Step.spelled ((a.chart.tree s).leaves g) words := by
    rw [hs.spelling]
    exact Grammar.spell_eq_zipWith hs.derives
  rw [hs'.spelling, Grammar.spell_eq_zipWith hs'.derives, h.chart, hsame, hspelling,
    zipWith_spelled_spelled]

/-- Association lists are made from the selected derivation and its spelling. -/
theorem Repeats.assocList_eq {a a' : Analysis} (h : Repeats a a') (hspelling : a'.spelling = a.spelling)
    {s : ChartState} (hs : a.candidate? none = some s) (g : Grammar) (closing : Bool) :
    (a'.assocList g closing).result = (a.assocList g closing).result := by
  have hs' : a'.candidate? none = some s := by rw [h.candidate?_eq, hs]
  rw [assocList_of_candidate? hs, assocList_of_candidate? hs', h.chart, hspelling]
  exact result_afterWalk _ _ _

/-- The spelling of a sentence that parses has its words up to case: where the selected derivation has a
wildcard the word as it was said, elsewhere the word of the grammar. Parsing the spelling gives the same
chart, candidates, scores and selection, the same spelling and the same association lists. -/
theorem parse_spells {g : Grammar} (hg : g.Built) (status : Nat → Status) (sentence : Sentence)
    (conf conf' : Confidence)
    (hparses : (parse (g.withStatuses status) sentence conf).state.candidates ≠ [])
    {read : List (Option Int) × Journal} (hread : conf'.read sentence.toWords.length = .ok read) :
    let grammar := g.withStatuses status
    let words := sentence.toWords
    let a := (parse grammar sentence conf).state
    let o := parse grammar (.words a.spelling) conf'
    (∃ s, a.candidate? none = some s
        ∧ a.chart.tree s ∈ grammar.derivations words s.item.rule
        ∧ List.Forall₂ Step.Accepts ((a.chart.tree s).leaves grammar) words
        ∧ ∀ (i : Nat) (step : Step), ((a.chart.tree s).leaves grammar)[i]? = some step →
          a.spelling[i]? = if step.isWild then words[i]? else some step.symbol)
      ∧ a.spelling.length = words.length
      ∧ a.spelling.map Text.lower = words.map Text.lower
      ∧ o.result = .ok a.candidates.length
      ∧ o.state.chart = a.chart
      ∧ o.state.candidates = a.candidates
      ∧ o.state.scores = a.scores
      ∧ o.state.selected = a.selected
      ∧ o.state.spelling = a.spelling
      ∧ ∀ closing, (o.state.assocList grammar closing).result
        = (a.assocList grammar closing).result := by
  intro grammar words a o
  have hcoherent : grammar.Coherent := hg.coherent.withStatuses status
  have hcharted : Charted grammar words (parse grammar sentence conf) :=
    charted_of_candidates hcoherent hparses
  obtain ⟨s, hs⟩ := exists_selected hcoherent hparses
  have hleaves : List.Forall₂ Step.Accepts ((a.chart.tree s).leaves grammar) words :=
    Grammar.forall₂_leaves hs.derives
  have hspelling : a.spelling
      = List.zipWith Step.spelled ((a.chart.tree s).leaves grammar) words := by
    rw [hs.spelling]
    exact Grammar.spell_eq_zipWith hs.derives
  have hlength : a.spelling.length = words.length := by
    rw [hspelling, List.length_zipWith, hleaves.length_eq, Nat.min_self]
  have hlower : a.spelling.map Text.lower = words.map Text.lower := by
    rw [hspelling]
    exact lower_zipWith_spelled hleaves
  -- there are as many words to spell, and the same productions, so the spelling is charted as well
  obtain ⟨hwords, hproductions⟩ := filled_of_candidates hparses
  have hread' : conf'.read (Sentence.words a.spelling).toWords.length = .ok read := by
    show conf'.read a.spelling.length = .ok read
    rw [hlength, hread]
  have hwords' : (Sentence.words a.spelling).toWords ≠ [] := by
    show a.spelling ≠ []
    rw [← List.length_pos_iff, hlength, List.length_pos_iff]
    exact hwords
  have hcharted' : Charted grammar a.spelling o :=
    charted_parse hcoherent hread' hwords' hproductions
  -- words that agree but for case give one chart
  have hrepeats : Repeats a o.state := hcharted.repeats hcharted' hlower
  have hparses' : o.state.candidates ≠ [] := by
    rw [hrepeats.candidates]
    exact hparses
  obtain ⟨s', hs'⟩ := exists_selected hcoherent hparses'
  have hspelling' : o.state.spelling = a.spelling := hrepeats.spelling_eq hs hs'
  refine ⟨⟨s, hs.candidate, hs.derives, hleaves, ?_⟩, hlength, hlower, ?_, hrepeats.chart,
    hrepeats.candidates, hrepeats.scores, hrepeats.selected, hspelling',
    hrepeats.assocList_eq hspelling' hs.candidate grammar⟩
  -- a wildcard spells the word it took, any other step its own symbol
  · intro i step hstep
    have hi : i < words.length := by
      rw [← hleaves.length_eq]
      exact (List.getElem?_eq_some_iff.1 hstep).1
    rw [hspelling, List.getElem?_zipWith, hstep, List.getElem?_eq_getElem hi]
    exact apply_ite some _ _ _
  · rw [hcharted'.result, hrepeats.candidates]

/-- The fixed word comes out in the case of the grammar and the other one as it was said, and so
they do when they are read a second time. -/
theorem parse_spells_errand :
    (parse topErrands (.words ["Go", "home"]) .absent).state.spelling = ["go", "home"]
      ∧ (parse topErrands (.words ["go", "home"]) .absent).state.spelling = ["go", "home"] := by
  obtain ⟨id, hid, _⟩ := exists_candidate_topErrands
  obtain ⟨⟨s, _, hderives, _, hspelled⟩, hlength, _, _, _, _, _, _, hagain, _⟩ :=
    parse_spells built_errands (fun _ => .top) (.words ["Go", "home"]) .absent .absent
      (List.ne_nil_of_mem hid) rfl
  -- the leaves of the only derivation are a fixed word and a wildcard
  rw [(mem_derivations_topErrands.1 hderives).2, Tree.leaves_node production_topErrands] at hspelled
  have hspelling : (parse topErrands (.words ["Go", "home"]) .absent).state.spelling
      = ["go", "home"] := by
    apply List.ext_getElem?
    intro i
    match i with
    | 0 => exact hspelled 0 ⟨"go", false⟩ rfl
    | 1 => exact hspelled 1 ⟨"#", false⟩ rfl
    | i + 2 =>
      rw [List.getElem?_eq_none_iff.2 (by rw [hlength]; exact Nat.le_add_left 2 i)]
      rfl
  rw [hspelling] at hagain
  exact ⟨hspelling, hagain⟩

end Analysis

end Utterance
