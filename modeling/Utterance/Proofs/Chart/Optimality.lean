import Mathlib.Order.Bounds.Basic
import Utterance.Proofs.Chart.Readback

/-!
# No derivation is better than the chart

Whatever derives words, a finished chart has a state for it whose score is no worse. The derivation
is followed step by step from the start of its production: a word is scanned, and a head is first
derived on its own and then joined. The score that has come up so far is carried along.
-/

namespace Utterance

namespace Chart

/-- A production that derives words from a position on may start there. Looking ahead therefore
never stands in the way of a derivation: the word that it asks for is the one that the derivation
begins with, and a production that begins with a head is let through unseen. -/
theorem mayStart_of_expands {t : Task} {words : List String}
    (ht : t.words = (words.map Text.lower).toArray) {p : Production} (hne : p.steps ≠ [])
    (husable : p.status.isUsable = true) {pos stop : Nat} {parts : List Tree}
    (h : t.grammar.Expands words p.steps pos stop parts) : mayStart t pos p = true := by
  -- the first step of the expansion is the one that is looked ahead for
  generalize hsteps : p.steps = steps at h
  cases h with
  | nil => exact absurd hsteps hne
  | @word step rest _ _ word _ terminal said accepts _ =>
    have hnext : t.words[pos]? = some (Text.lower word) := by simp [ht, said]
    have hfirst : p.steps.head? = some step := by rw [hsteps, List.head?_cons]
    simp only [mayStart, husable, hfirst, hnext, Option.getD_some, Bool.true_and, Bool.or_eq_true,
      beq_iff_eq]
    rcases accepts with hwild | hsame
    · exact .inl (.inr hwild)
    · exact .inr hsame
  | @head step rest _ _ _ _ _ _ _ nonterminal =>
    have hfirst : p.steps.head? = some step := by rw [hsteps, List.head?_cons]
    simp [mayStart, husable, hfirst, nonterminal]

/-- The score of a node all of whose steps are matched is what its production costs by itself and
what its parts cost. The scores of the chart are added up in the same two portions. -/
theorem score_node_of_expands {g : Grammar} {words : List String} {rule start stop pos mid : Nat}
    {p : Production} (hp : g.productions[rule]? = some p) {parts : List Tree}
    (h : g.Expands words p.steps start stop parts) :
    (Tree.node rule pos mid parts).score g = ownScore p.steps + Tree.scores g parts := by
  rw [Tree.score_node, Grammar.stepsAt_eq hp, h.length_parts, List.take_length]

/-- What attains a bound attains every weaker one. -/
theorem Attains.mono {c : Chart} {i : Item} {bound bound' : Score} (h : c.Attains i bound)
    (hle : bound ≤ bound') : c.Attains i bound' := by
  obtain ⟨id, s, hs, hitem, hscore⟩ := h
  exact ⟨id, s, hs, hitem, le_trans hscore hle⟩

/-! ## One step of a derivation -/

section Saturated

variable {t : Task} {c : Chart} {words : List String} {rule start pos dot : Nat} {p : Production}
  {step : Step} {bound : Score}

theorem nextStep?_of_item (hp : t.grammar.productions[rule]? = some p)
    (hstep : p.steps[dot]? = some step) : t.nextStep? ⟨rule, start, pos, dot⟩ = some step := by
  simp [Task.nextStep?, Task.steps, hp, hstep]

/-- What a word or a wildcard accepts is scanned, at the cost that the step has at its place. -/
theorem Saturated.attains_scan (hc : c.Saturated t) (ht : t.words = (words.map Text.lower).toArray)
    (h : c.Attains ⟨rule, start, pos, dot⟩ bound) (hp : t.grammar.productions[rule]? = some p)
    (hstep : p.steps[dot]? = some step) (hterminal : step.nonterminal = false) {word : String}
    (hsaid : words[pos]? = some word) (haccepts : step.Accepts word) :
    c.Attains ⟨rule, start, pos + 1, dot + 1⟩ (bound + stepCost p.steps dot) := by
  obtain ⟨id, s, hs, hitem, hscore⟩ := h
  have hnext : t.nextStep? s.item = some step := by
    rw [hitem]
    exact nextStep?_of_item hp hstep
  have hword : t.words[s.item.stop]? = some (Text.lower word) := by simp [ht, hitem, hsaid]
  have hleads := state?_scan.2 ⟨s, step, _, hs, hnext, hword, hterminal, haccepts, rfl⟩
  have hattains := hc.scans hs _ hleads
  have hsteps : t.steps rule = p.steps := by simp [Task.steps, hp]
  simp only [advanced, hitem, hsteps] at hattains
  exact hattains.mono (add_le_add_left hscore _)

/-- A head that is waited for is tried with every production that may start. The new item has
matched nothing and costs nothing, however the head came to be waited for. -/
theorem Saturated.attains_start (hc : c.Saturated t) (h : c.Attains ⟨rule, start, pos, dot⟩ bound)
    (hp : t.grammar.productions[rule]? = some p) (hstep : p.steps[dot]? = some step)
    (hnonterminal : step.nonterminal = true) {inner : Nat} {q : Production}
    (hq : t.grammar.productions[inner]? = some q)
    (hnamed : Text.lower q.head = Text.lower step.symbol) (hstart : mayStart t pos q = true) :
    c.Attains ⟨inner, pos, pos, 0⟩ .start := by
  obtain ⟨id, s, hs, hitem, _⟩ := h
  have hwaits : t.waitsFor s.item (Text.lower q.head) = true := by
    rw [hitem, Task.waitsFor_iff]
    exact ⟨step, nextStep?_of_item hp hstep, hnonterminal, hnamed.symm⟩
  have hpos : s.item.stop = pos := by rw [hitem]
  have hhonoured := hc.starts hs hq hwaits (by rw [hpos]; exact hstart)
  rw [hpos] at hhonoured
  exact hhonoured _ (state?_start.2 rfl)

/-- What a head derives is joined to the state that waits for it, and the scores add up. Both bounds
may be slack, as the chart may know a better way to either of the two. -/
theorem Saturated.attains_join (hc : c.Saturated t) (h : c.Attains ⟨rule, start, pos, dot⟩ bound)
    (hp : t.grammar.productions[rule]? = some p) (hstep : p.steps[dot]? = some step)
    (hnonterminal : step.nonterminal = true) {inner mid : Nat} {q : Production} {cost : Score}
    (hq : t.grammar.productions[inner]? = some q)
    (hnamed : Text.lower q.head = Text.lower step.symbol)
    (hdone : c.Attains ⟨inner, pos, mid, q.steps.length⟩ cost) :
    c.Attains ⟨rule, start, mid, dot + 1⟩ (bound + cost) := by
  obtain ⟨id, s, hs, hitem, hscore⟩ := h
  obtain ⟨done, d, hd, hinner, hcost⟩ := hdone
  -- the two states meet: the one waits, where the other starts, for the head that the other derives
  have hfinished : t.isFinished d.item = true := by simp [Task.isFinished, Task.steps, hinner, hq]
  have hwaits : t.waitsFor s.item (t.head d.item) = true := by
    have hhead : t.head d.item = Text.lower q.head := by simp [Task.head, hinner, hq]
    rw [hitem, Task.waitsFor_iff]
    exact ⟨step, nextStep?_of_item hp hstep, hnonterminal, by rw [hhead, hnamed]⟩
  have hvalid : c.Valid t (.join id done) :=
    ⟨s, d, hs, hd, hfinished, by rw [hitem, hinner], hwaits⟩
  have hattains := hc.joins hvalid _ (state?_join.2 ⟨s, d, hs, hd, rfl⟩)
  simp only [advanced, hitem, hinner] at hattains
  exact hattains.mono (add_le_add hscore hcost)

/-! ## Whole derivations -/

/-- From a state on, every derivation of its remaining steps leads to a finished state that is no
worse.

The derivation is followed step by step. A word is scanned; a head is started, finished by the
induction hypothesis for what is inside, and joined. The score is split into what the production
costs by itself up to the dot and the score of the parts, so that each step adds to one of the two. -/
theorem Saturated.attains_of_expands (hc : c.Saturated t) (hg : t.grammar.Coherent)
    (ht : t.words = (words.map Text.lower).toArray) {steps : List Step} {stop : Nat}
    {parts : List Tree} (h : t.grammar.Expands words steps pos stop parts)
    (hp : t.grammar.productions[rule]? = some p) (hsteps : p.steps.drop dot = steps) {base : Score}
    (hattains : c.Attains ⟨rule, start, pos, dot⟩ (ownScore (p.steps.take dot) + base)) :
    c.Attains ⟨rule, start, stop, p.steps.length⟩
      (ownScore p.steps + (base + Tree.scores t.grammar parts)) := by
  -- the induction carries the score of the parts before the dot as `base`
  have hfirst : ∀ {p : Production} {dot : Nat} {step : Step} {rest : List Step},
      p.steps.drop dot = step :: rest →
        p.steps[dot]? = some step ∧ p.steps.drop (dot + 1) = rest ∧ dot < p.steps.length := by
    intro p dot step rest hdrop
    have hget : p.steps[dot]? = some step := by rw [← List.head?_drop, hdrop, List.head?_cons]
    refine ⟨hget, ?_, (List.getElem?_eq_some_iff.1 hget).1⟩
    rw [← List.tail_drop, hdrop, List.tail_cons]
  induction h generalizing rule start dot p base with
  | nil pos =>
    -- nothing is left, so the dot stands behind the last step
    have hle : p.steps.length ≤ dot := List.drop_eq_nil_iff.1 hsteps
    obtain ⟨id, s, hs, hitem, hscore⟩ := hattains
    have hproper := (hc.wellFormed.proper hs).dot_le
    have hrule : t.steps s.item.rule = p.steps := by simp [Task.steps, hitem, hp]
    rw [hrule, hitem] at hproper
    have hdot : dot = p.steps.length := Nat.le_antisymm hproper hle
    subst hdot
    rw [List.take_length] at hscore
    exact ⟨id, s, hs, hitem, by simpa using hscore⟩
  -- the step costs what a word or a wildcard costs at this place, which the next prefix contains
  | word terminal said accepts _ ih =>
    obtain ⟨hstep, hrest, hlt⟩ := hfirst hsteps
    have hnext := hc.attains_scan ht hattains hp hstep terminal said accepts
    rw [add_right_comm, ← ownScore_take_succ hlt] at hnext
    have hdone := ih hp hrest hnext
    simpa using hdone
  | @head step rest pos mid stop inner q innerParts parts nonterminal production usable named inside
      _ ihInside ih =>
    obtain ⟨hstep, hrest, hlt⟩ := hfirst hsteps
    have hstart := mayStart_of_expands ht (hg.steps_ne_nil production) usable inside
    have hbegun := hc.attains_start hattains hp hstep nonterminal production named hstart
    -- what the head derives is a derivation of its own, which begins where the head is waited for
    have hinner : c.Attains ⟨inner, pos, mid, q.steps.length⟩
        ((Tree.node inner pos mid innerParts).score t.grammar) := by
      rw [score_node_of_expands production inside, ← zero_add (Tree.scores _ innerParts)]
      refine ihInside production List.drop_zero ?_
      rw [List.take_zero, ownScore_nil, add_zero]
      exact hbegun
    have hjoined := hc.attains_join hattains hp hstep nonterminal production named hinner
    -- the head itself costs nothing
    have hown : ownScore (p.steps.take dot) = ownScore (p.steps.take (dot + 1)) := by
      rw [ownScore_take_succ hlt, stepCost_of_nonterminal hstep nonterminal, add_zero]
    rw [hown, add_assoc] at hjoined
    have hdone := ih hp hrest hjoined
    rw [add_assoc base] at hdone
    simpa using hdone

/-- Every derivation of the sentence by a production that may start one has a state that is no
worse: the run begins with the start of that production, and the derivation is followed from there. -/
theorem Saturated.attains_of_mem_derivations (hc : c.Saturated t) (hg : t.grammar.Coherent)
    (ht : t.words = (words.map Text.lower).toArray) (hp : t.grammar.productions[rule]? = some p)
    (htop : p.status = .top) {tree : Tree} (htree : tree ∈ t.grammar.derivations words rule) :
    c.Attains ⟨rule, 0, words.length, p.steps.length⟩ (tree.score t.grammar) := by
  obtain ⟨parts, rfl, q, hq, husable, hexpands⟩ := htree
  rw [hp, Option.some.injEq] at hq
  subst hq
  have hstart := mayStart_of_expands ht (hg.steps_ne_nil hp) husable hexpands
  have hbegun : c.Attains ⟨rule, 0, 0, 0⟩ (ownScore (p.steps.take 0) + 0) := by
    rw [List.take_zero, ownScore_nil, add_zero]
    exact hc.tops hp htop hstart _ (state?_start.2 rfl)
  have hdone := hc.attains_of_expands hg ht hexpands hp List.drop_zero hbegun
  rw [zero_add] at hdone
  rw [score_node_of_expands hp hexpands]
  exact hdone

/-- The score of a finished state over the whole sentence is the least that a derivation by its
production has. It is attained by the tree that is read back from the state, and no derivation has
less, since each has a state that is no worse and an item has only one state. -/
theorem Saturated.isLeast_score (hc : c.Saturated t) (hg : t.grammar.Coherent)
    (ht : t.words = (words.map Text.lower).toArray) (hp : t.grammar.productions[rule]? = some p)
    (htop : p.status = .top) {id : Nat} {s : ChartState} (hs : c.states[id]? = some s)
    (hitem : s.item = ⟨rule, 0, words.length, p.steps.length⟩) :
    IsLeast (Tree.score t.grammar '' t.grammar.derivations words rule) s.score := by
  have htraced := hc.traced hs
  have hfinished : t.isFinished s.item = true := by simp [Task.isFinished, Task.steps, hitem, hp]
  constructor
  -- the derivation that is read back has this score
  · refine ⟨c.tree s, ⟨(c.children s).map c.partTree, ?_, htraced.derivation hc ht hfinished⟩,
      htraced.score_tree hc⟩
    rw [htraced.tree_eq hc, hitem]
  · rintro score ⟨tree, htree, rfl⟩
    obtain ⟨id', s', hs', hitem', hle⟩ := hc.attains_of_mem_derivations hg ht hp htop htree
    -- an item has one state only
    have hid : id = id' := hc.wellFormed.eq_of_item hs hs' (by rw [hitem, hitem'])
    subst hid
    rw [hs, Option.some.injEq] at hs'
    subst hs'
    exact hle

end Saturated

end Chart

end Utterance
