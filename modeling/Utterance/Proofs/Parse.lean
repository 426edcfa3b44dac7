import Utterance.Analysis
import Utterance.Proofs.Chart.Optimality

/-!
# What a parse leaves behind

A parse that has words and productions fills the chart, lists the states that cover the sentence and
selects the first best of them. Spelling the selected derivation cannot fail, because every production
of a derivation is there. So the result of a parse is the number of candidates, unless the confidences
could not be read.
-/

namespace Utterance

/-! ## Spelling -/

/-- A derivation can be spelled without a fault, wherever it begins and whatever has been spelled
before. -/
theorem Grammar.Expands.spellParts_snd {g : Grammar} {words : List String} {steps : List Step}
    {pos stop : Nat} {parts : List Tree} (h : g.Expands words steps pos stop parts)
    (said : Array String) (origin : Nat) (spelling : Array String) :
    (Tree.spellParts g said steps origin parts spelling).2 = none := by
  induction h generalizing origin spelling with
  | nil pos => rw [Tree.spellParts]
  | word terminal _ _ _ ih =>
    rw [Tree.spellParts]
    simp only [terminal, Bool.false_eq_true, if_false]
    exact ih _ _
  | @head step _ pos mid _ rule p inner _ nonterminal production _ _ _ _ ihInside ih =>
    -- the production of an inner node is there, so spelling goes on inside it
    have hspell : (Tree.spell g said (.node rule pos mid inner) spelling).2 = none := by
      rw [Tree.spell, production]
      exact ihInside _ _
    rw [Tree.spellParts]
    simp only [nonterminal, if_true]
    split
    · rename_i hfault
      rw [hfault] at hspell
      cases hspell
    · exact ih _ _

/-- A whole derivation can be spelled, as all productions that it names are there. -/
theorem Grammar.Derivation.spell_snd {g : Grammar} {words : List String} {tree : Tree}
    (h : g.Derivation words tree) (said spelling : Array String) :
    (tree.spell g said spelling).2 = none := by
  cases tree with
  | word => exact h.elim
  | node rule start stop parts =>
    obtain ⟨p, hp, _, hexpands⟩ := h
    rw [Tree.spell, hp]
    exact hexpands.spellParts_snd said start spelling

namespace Analysis

/-! ## The first best score -/

/-- A position holds a score that no other is better than, and those before it are worse. -/
def FirstBest (scores : List Score) (k : Nat) : Prop :=
  ∃ best, scores[k]? = some best ∧ (∀ s ∈ scores, best ≤ s)
    ∧ ∀ i s, i < k → scores[i]? = some s → best < s

/-- The search goes on from the first best of the scores before. The invariant is that the score
held so far is best among those that have been passed, and strictly better than those in front of
it. -/
theorem firstBest_bestFrom {before rest : List Score} {best : Nat} {bestScore : Score}
    (hbest : before[best]? = some bestScore) (hle : ∀ s ∈ before, bestScore ≤ s)
    (hlt : ∀ i s, i < best → before[i]? = some s → bestScore < s) :
    FirstBest (before ++ rest) (bestFrom best bestScore before.length rest) := by
  -- by induction on the scores that are left, with those before it growing from the right
  induction rest generalizing before best bestScore with
  | nil =>
    rw [List.append_nil, bestFrom]
    exact ⟨bestScore, hbest, hle, hlt⟩
  | cons s rest ih =>
    have hbound : best < before.length := (List.getElem?_eq_some_iff.1 hbest).1
    have hlength : (before ++ [s]).length = before.length + 1 := by simp
    have hsplit : before ++ s :: rest = (before ++ [s]) ++ rest := by simp
    rw [bestFrom, hsplit, ← hlength]
    split
    -- the next score is better than all before it
    · rename_i hbetter
      apply ih
      · simp
      · intro q hq
        rcases List.mem_append.1 hq with hq | hq
        · exact le_trans (le_of_lt hbetter) (hle q hq)
        · rw [List.mem_singleton.1 hq]
      · intro i q hi hq
        rw [List.getElem?_append_left hi] at hq
        exact lt_of_lt_of_le hbetter (hle q (List.mem_of_getElem? hq))
    -- an equal score does not count as better, so the earlier one stays
    · rename_i hworse
      apply ih
      · rw [List.getElem?_append_left hbound]
        exact hbest
      · intro q hq
        rcases List.mem_append.1 hq with hq | hq
        · exact hle q hq
        · rw [List.mem_singleton.1 hq]
          exact not_lt.1 hworse
      · intro i q hi hq
        rw [List.getElem?_append_left (by omega)] at hq
        exact hlt i q hi hq

/-- The search finds the first best of any scores, if there are some. -/
theorem firstBest_bestOf {scores : List Score} (h : scores ≠ []) :
    FirstBest scores (bestOf scores) := by
  cases scores with
  | nil => exact absurd rfl h
  | cons s rest =>
    have hbest : [s][0]? = some s := rfl
    have hle : ∀ q ∈ [s], s ≤ q := by
      intro q hq
      rw [List.mem_singleton.1 hq]
    -- the search starts with the first score, and there is none before it
    have hlt : ∀ i q, i < 0 → [s][i]? = some q → s < q := by
      intro i q hi
      omega
    exact firstBest_bestFrom hbest hle hlt

/-! ## Candidates -/

/-- A state is a candidate just if it covers the sentence. -/
theorem mem_covering {t : Task} {c : Chart} {id : Nat} :
    id ∈ covering t c ↔ ∃ s, c.states[id]? = some s ∧ covers t s = true := by
  simp only [covering, List.mem_filter, List.mem_range]
  constructor
  · rintro ⟨_, hany⟩
    cases hs : c.states[id]? with
    | none => simp [hs] at hany
    | some s => exact ⟨s, rfl, by simpa [hs] using hany⟩
  · rintro ⟨s, hs, hcovers⟩
    exact ⟨(Array.getElem?_eq_some_iff.1 hs).1, by simp [hs, hcovers]⟩

/-- Candidates are listed in the order in which their states were found. -/
theorem pairwise_covering (t : Task) (c : Chart) : (covering t c).Pairwise (· < ·) :=
  List.Pairwise.filter _ List.pairwise_lt_range

/-- What covers a sentence is a finished item of a production that may start one. -/
theorem covers_iff {t : Task} {c : Chart} (hc : c.WellFormed t) {id : Nat} {s : ChartState}
    (hs : c.states[id]? = some s) :
    covers t s = true
      ↔ ∃ p, t.grammar.productions[s.item.rule]? = some p ∧ p.status = .top
        ∧ s.item = ⟨s.item.rule, 0, t.length, p.steps.length⟩ := by
  obtain ⟨p, hp⟩ := (hc.proper hs).exists_production
  have hsteps : t.steps s.item.rule = p.steps := by simp [Task.steps, hp]
  have hdot := (hc.proper hs).dot_le
  rw [hsteps] at hdot
  simp only [covers, Task.isFinished, hp, hsteps, Option.any_some, Bool.and_eq_true, beq_iff_eq,
    decide_eq_true_eq]
  constructor
  · rintro ⟨⟨⟨hstart, hstop⟩, hfinished⟩, htop⟩
    refine ⟨p, rfl, htop, ?_⟩
    -- the dot cannot be behind the last step
    rw [← Nat.le_antisymm hdot hfinished, ← hstart, ← hstop]
  · rintro ⟨q, hq, htop, hitem⟩
    rw [Option.some.injEq] at hq
    subst hq
    have hstart := congrArg Item.start hitem
    have hstop := congrArg Item.stop hitem
    have hdot' := congrArg Item.dot hitem
    exact ⟨⟨⟨hstart, hstop⟩, Nat.le_of_eq hdot'.symm⟩, htop⟩

/-- The productions of the candidates, in their order. -/
def rules (a : Analysis) : List Nat :=
  a.candidates.filterMap fun id => (a.chart.states[id]?).map (·.item.rule)

/-- The scores of the candidates, in their order. -/
def scores (a : Analysis) : List Score :=
  a.candidates.filterMap fun id => (a.chart.states[id]?).map (·.score)

theorem candidate?_natCast (a : Analysis) (i : Nat) :
    a.candidate? (some i) = a.candidates[i]?.bind (a.chart.states[·]?) := by
  simp [candidate?]

/-- If every candidate has a state, nothing is left out of a list of what their states hold. So the
lists of scores and of rules are numbered as the candidates are. -/
theorem getElem?_filterMap_candidates {α : Type} {a : Analysis} (f : ChartState → α)
    (h : ∀ id ∈ a.candidates, ∃ s, a.chart.states[id]? = some s) (i : Nat) :
    (a.candidates.filterMap fun id => (a.chart.states[id]?).map f)[i]?
      = (a.candidate? (some i)).map f := by
  rw [candidate?_natCast]
  generalize a.candidates = ids at h ⊢
  induction ids generalizing i with
  | nil => simp
  | cons id ids ih =>
    obtain ⟨s, hs⟩ := h id (List.mem_cons_self ..)
    rw [List.filterMap_cons_some (by rw [hs, Option.map_some])]
    cases i with
    | zero => simp [hs]
    | succ i => simpa using ih i fun j hj => h j (List.mem_cons_of_mem _ hj)

/-- Where there are candidates, one of them is the first best. -/
theorem firstBest_scores {a : Analysis} (h : ∀ id ∈ a.candidates, ∃ s, a.chart.states[id]? = some s)
    (hne : a.candidates ≠ []) : FirstBest a.scores (bestOf a.scores) := by
  apply firstBest_bestOf
  intro hnil
  obtain ⟨id, ids, hids⟩ := List.exists_cons_of_ne_nil hne
  obtain ⟨s, hs⟩ := h id (by rw [hids]; exact List.mem_cons_self ..)
  have hfirst : a.scores[0]? = some s.score := by
    rw [scores, getElem?_filterMap_candidates _ h, candidate?_natCast, hids]
    simp [hs]
  rw [hnil] at hfirst
  cases hfirst

/-- The candidate with the first best score is there, and so is its state. -/
theorem exists_best {a : Analysis} (h : ∀ id ∈ a.candidates, ∃ s, a.chart.states[id]? = some s)
    (hne : a.candidates ≠ []) :
    ∃ id s, a.candidates[bestOf a.scores]? = some id ∧ a.chart.states[id]? = some s := by
  obtain ⟨best, hbest, _⟩ := firstBest_scores h hne
  rw [scores, getElem?_filterMap_candidates _ h, candidate?_natCast, Option.map_eq_some_iff] at hbest
  obtain ⟨s, hs, _⟩ := hbest
  obtain ⟨id, hid, hs⟩ := Option.bind_eq_some_iff.1 hs
  exact ⟨id, s, hid, hs⟩

/-! ## Parsing -/

/-- Selecting a candidate that can be spelled changes nothing but the selection, the spelling and the
cursor. -/
theorem select_eq {g : Grammar} {a : Analysis} {n id : Nat} {s : ChartState}
    (hid : a.candidates[n]? = some id) (hs : a.chart.states[id]? = some s)
    (hspell : ∀ said spelling, ((a.chart.tree s).spell g said spelling).2 = none) :
    ∃ spelling cursor, a.select g n
      = ⟨{ a with spelling, cursor, selected := some n }, .ok (some n), []⟩ := by
  have hcandidate : a.candidate? (some (n : Int)) = some s := by simp [candidate?, hid, hs]
  cases hspelled : (a.chart.tree s).spell g a.words.toArray a.words.toArray with
  | mk spelling fault =>
    have hfault : fault = none := by
      have hnone := hspell a.words.toArray a.words.toArray
      rw [hspelled] at hnone
      exact hnone
    subst hfault
    -- neither the selection nor the spelling changes which state a candidate has
    have htop : ({ a with selected := some n, spelling := spelling.toList } : Analysis).candidate?
        (some (n : Int)) = some s := hcandidate
    refine ⟨spelling.toList, .root (a.chart.tree s), ?_⟩
    simp only [select, hcandidate, hspelled, Int.toNat_natCast, top, htop]

/-- What selecting a candidate leaves behind: its tree spelled, and the cursor at its root unless the
spelling failed. -/
theorem select_of_candidate? {g : Grammar} {a : Analysis} {n : Nat} {s : ChartState}
    (h : a.candidate? (some (n : Int)) = some s) :
    a.select g n
      = let spelled := (a.chart.tree s).spell g a.words.toArray a.words.toArray
        ⟨{ a with
            selected := some n
            spelling := spelled.1.toList
            cursor := if spelled.2.isNone then .root (a.chart.tree s) else a.cursor },
          match spelled.2 with
          | some e => .error e
          | none => .ok (some n), []⟩ := by
  have htop : ∀ spelling : List String, ({ a with selected := some n, spelling } : Analysis).candidate?
      (some (n : Int)) = some s := fun _ => h
  simp only [select, h, Int.toNat_natCast, top]
  cases hfault : ((a.chart.tree s).spell g a.words.toArray a.words.toArray).2 with
  | some e => simp
  | none => simp [htop]

/-- Nothing was charted. -/
structure Uncharted (a : Analysis) : Prop where
  chart : a.chart = {}
  candidates : a.candidates = []
  selected : a.selected = none

/-- The chart was filled, and the first best of the states that cover the sentence was selected. -/
structure Charted (g : Grammar) (words : List String) (o : Outcome Analysis Nat) : Prop where
  chart : o.state.chart = (Task.ofWords g words).chart
  candidates : o.state.candidates = covering (Task.ofWords g words) o.state.chart
  selected : o.state.selected
    = if o.state.candidates = [] then none else some (bestOf o.state.scores)
  result : o.result = .ok o.state.candidates.length

theorem words_ofWords (g : Grammar) (words : List String) :
    (Task.ofWords g words).words = (words.map Text.lower).toArray := rfl

theorem length_ofWords (g : Grammar) (words : List String) :
    (Task.ofWords g words).length = words.length := by
  simp [Task.length, words_ofWords]

/-- A covering state stands for a derivation. -/
theorem derivation_of_covers {g : Grammar} (hg : g.Coherent) {words : List String} {id : Nat}
    {s : ChartState} (hs : (Task.ofWords g words).chart.states[id]? = some s)
    (hcovers : covers (Task.ofWords g words) s = true) :
    g.Derivation words ((Task.ofWords g words).chart.tree s) := by
  have hc : (Task.ofWords g words).chart.Saturated (Task.ofWords g words) := Task.saturated_chart hg
  have hfinished : (Task.ofWords g words).isFinished s.item = true := by
    simp only [covers, Bool.and_eq_true] at hcovers
    exact hcovers.1.2
  exact (hc.traced hs).derivation hc (words_ofWords g words) hfinished

/-- Selecting the first best candidate succeeds: its tree is a derivation, so that it can be
spelled, and the number of candidates is returned. -/
theorem charted_select {g : Grammar} (hg : g.Coherent) {words : List String} {a : Analysis}
    (hchart : a.chart = (Task.ofWords g words).chart)
    (hcandidates : a.candidates = covering (Task.ofWords g words) a.chart)
    (hne : a.candidates ≠ []) (notes : Journal) :
    Charted g words
      ⟨(a.select g (bestOf a.scores)).state,
        (a.select g (bestOf a.scores)).result.map fun _ => a.candidates.length, notes⟩ := by
  have hcovers : ∀ id ∈ a.candidates, ∃ s, a.chart.states[id]? = some s
      ∧ covers (Task.ofWords g words) s = true := by
    intro id hid
    rw [hcandidates] at hid
    exact mem_covering.1 hid
  have hstates : ∀ id ∈ a.candidates, ∃ s, a.chart.states[id]? = some s := by
    intro id hid
    obtain ⟨s, hs, _⟩ := hcovers id hid
    exact ⟨s, hs⟩
  obtain ⟨id, s, hid, hs⟩ := exists_best hstates hne
  obtain ⟨s', hs', hcover⟩ := hcovers id (List.mem_of_getElem? hid)
  rw [hs, Option.some.injEq] at hs'
  subst hs'
  -- the best candidate stands for a derivation, and that can be spelled
  have hspell : ∀ said spelling, ((a.chart.tree s).spell g said spelling).2 = none := by
    intro said spelling
    rw [hchart] at hs ⊢
    exact (derivation_of_covers hg hs hcover).spell_snd said spelling
  obtain ⟨spelling, cursor, hselect⟩ := select_eq hid hs hspell
  rw [hselect]
  refine ⟨hchart, hcandidates, ?_, rfl⟩
  show some _ = if a.candidates = [] then none else some (bestOf a.scores)
  rw [if_neg hne]

/-- A parse with words and productions fills the chart. If nothing covers the sentence the analysis
has no candidates; otherwise the best is selected. -/
theorem charted_parse {g : Grammar} (hg : g.Coherent) {sentence : Sentence} {conf : Confidence}
    {read : List (Option Int) × Journal} (hread : conf.read sentence.toWords.length = .ok read)
    (hwords : sentence.toWords ≠ []) (hproductions : g.productions ≠ #[]) :
    Charted g sentence.toWords (parse g sentence conf) := by
  obtain ⟨confidences, notes⟩ := read
  have hany : (sentence.toWords.isEmpty || g.productions.isEmpty) = false := by
    simp [hwords, hproductions]
  simp only [parse, parseWith, hread, hany, Bool.false_eq_true, if_false]
  split
  · rename_i hempty
    have hnil := List.isEmpty_iff.1 hempty
    exact ⟨rfl, rfl, by simp [hnil], by simp [hnil]⟩
  · rename_i hsome
    have hne : covering (Task.ofWords g sentence.toWords)
        (Task.ofWords g sentence.toWords).chart ≠ [] := fun hnil => hsome (by rw [hnil]; rfl)
    exact charted_select hg (a := ⟨_, _, _, _, _, _, _⟩) rfl rfl hne _

/-- Without words or productions, and with confidences that cannot be read, nothing is charted. -/
theorem uncharted_parse {g : Grammar} {sentence : Sentence} {conf : Confidence}
    (h : (∃ fault, conf.read sentence.toWords.length = .error fault) ∨ sentence.toWords = []
      ∨ g.productions = #[]) : Uncharted (parse g sentence conf).state := by
  cases hread : conf.read sentence.toWords.length with
  | error fault =>
    simp only [parse, parseWith, hread]
    exact ⟨rfl, rfl, rfl⟩
  | ok read =>
    -- with readable confidences it is the words or the productions that are missing
    have hany : (sentence.toWords.isEmpty || g.productions.isEmpty) = true := by
      rcases h with ⟨fault, hfault⟩ | hwords | hproductions
      · rw [hread] at hfault
        cases hfault
      · simp [hwords]
      · simp [hproductions]
    simp only [parse, parseWith, hread, hany, if_true]
    exact ⟨rfl, rfl, rfl⟩

/-- Either the chart was filled, or there is nothing to be said about it. -/
theorem charted_or_uncharted {g : Grammar} (hg : g.Coherent) (sentence : Sentence)
    (conf : Confidence) :
    Charted g sentence.toWords (parse g sentence conf)
      ∨ Uncharted (parse g sentence conf).state := by
  cases hread : conf.read sentence.toWords.length with
  | error fault => exact .inr (uncharted_parse (.inl ⟨fault, hread⟩))
  | ok read =>
    by_cases hwords : sentence.toWords = []
    · exact .inr (uncharted_parse (.inr (.inl hwords)))
    by_cases hproductions : g.productions = #[]
    · exact .inr (uncharted_parse (.inr (.inr hproductions)))
    · exact .inl (charted_parse hg hread hwords hproductions)

/-- If the confidences can be read, a parse returns the number of candidates. -/
theorem result_parse {g : Grammar} (hg : g.Coherent) {sentence : Sentence} {conf : Confidence}
    {read : List (Option Int) × Journal} (hread : conf.read sentence.toWords.length = .ok read) :
    (parse g sentence conf).result = .ok (parse g sentence conf).state.candidates.length := by
  cases hany : sentence.toWords.isEmpty || g.productions.isEmpty with
  | true =>
    simp only [parse, parseWith, hread, hany, if_true]
    rfl
  | false =>
    simp only [Bool.or_eq_false_iff, List.isEmpty_eq_false_iff, Array.isEmpty_eq_false_iff] at hany
    exact (charted_parse hg hread hany.1 hany.2).result

end Analysis

end Utterance
