import Mathlib.Data.List.Chain
import Mathlib.Order.WellFounded
import Utterance.Proofs.Chart.Saturation

/-!
# What the pointers of a finished chart describe

The pointers of a state lead back to states with fewer nodes, or with as many and fewer matched steps.
So they cannot go round in circles, and whatever is true of a start, is passed on by a word and is
passed on by a finished part is true of every state. In this way the tree that is read back through
the pointers turns out to be a derivation, and its score to be the score of the state.
-/

namespace Utterance

namespace Chart

/-! ## Where states come from -/

/-- How a state of a finished chart came about, back to the starts of productions. -/
inductive Traced (t : Task) (c : Chart) : ChartState → Prop where
  | start {rule pos : Nat} {p : Production} (production : t.grammar.productions[rule]? = some p)
      (usable : p.status.isUsable = true) : Traced t c { item := ⟨rule, pos, pos, 0⟩ }
  | scan {id : Nat} {s : ChartState} {step : Step} {word : String} (traced : Traced t c s)
      (holds : c.states[id]? = some s) (waits : t.nextStep? s.item = some step)
      (said : t.words[s.item.stop]? = some word) (terminal : step.nonterminal = false)
      (accepts : step.isWild = true ∨ Text.lower step.symbol = word) :
      Traced t c
        (advanced id s (s.item.stop + 1) none (stepCost (t.steps s.item.rule) s.item.dot))
  | join {id done : Nat} {s d : ChartState} {step : Step} (traced : Traced t c s)
      (inside : Traced t c d) (holds : c.states[id]? = some s) (part : c.states[done]? = some d)
      (finished : t.isFinished d.item = true) (meets : s.item.stop = d.item.start)
      (waits : t.nextStep? s.item = some step) (nonterminal : step.nonterminal = true)
      (named : Text.lower step.symbol = t.head d.item) :
      Traced t c (advanced id s d.item.stop (some done) d.score)

/-- A word adds no node. -/
theorem nodes_stepCost (steps : List Step) (dot : Nat) : (stepCost steps dot).nodes = 0 := by
  unfold stepCost
  split <;> rfl

/-- Every state has a node at least, its own. This is what makes the number of nodes go down from a
whole to its parts, so that reading a derivation back comes to an end. -/
theorem Saturated.one_le_nodes {t : Task} {c : Chart} (h : c.Saturated t) {id : Nat}
    {s : ChartState} (hs : c.states[id]? = some s) : 1 ≤ s.score.nodes := by
  -- by induction on the matched steps, as each state has the nodes of the one before it
  generalize hdot : s.item.dot = dot
  induction dot generalizing id s with
  | zero =>
    -- only a start has matched no step, and it counts as one node
    obtain ⟨way, _, hleads⟩ := h.backed hs
    cases way with
    | start rule pos =>
      rw [state?_start.1 hleads]
      exact Nat.le_refl 1
    | scan j =>
      obtain ⟨_, _, _, _, _, _, _, _, rfl⟩ := state?_scan.1 hleads
      simp [advanced] at hdot
    | join j done =>
      obtain ⟨_, _, _, _, rfl⟩ := state?_join.1 hleads
      simp [advanced] at hdot
  | succ dot ih =>
    obtain ⟨way, _, hleads⟩ := h.backed hs
    cases way with
    | start rule pos =>
      rw [state?_start.1 hleads] at hdot
      simp at hdot
    | scan j =>
      obtain ⟨q, _, _, hq, _, _, _, _, rfl⟩ := state?_scan.1 hleads
      have hq1 := ih hq (by simpa [advanced] using hdot)
      simp only [advanced, Score.nodes_add]
      omega
    | join j done =>
      obtain ⟨q, _, hq, _, rfl⟩ := state?_join.1 hleads
      have hq1 := ih hq (by simpa [advanced] using hdot)
      simp only [advanced, Score.nodes_add]
      omega

/-- Every state of a finished chart can be traced back to the starts of productions. The recursion
is on the nodes of the score, and on the matched steps where a word leaves the nodes as they are. -/
theorem Saturated.traced {t : Task} {c : Chart} (h : c.Saturated t) {id : Nat} {s : ChartState}
    (hs : c.states[id]? = some s) : c.Traced t s := by
  obtain ⟨way, hvalid, hleads⟩ := h.backed hs
  cases way with
  | start rule pos =>
    obtain ⟨p, hp, husable⟩ := hvalid
    rw [state?_start.1 hleads]
    exact .start hp husable
  | scan j =>
    obtain ⟨q, step, word, hq, hstep, hword, hterminal, haccepts, heq⟩ := state?_scan.1 hleads
    -- a word adds no node, so it is the number of matched steps that goes down
    have hnodes : s.score.nodes = q.score.nodes := by
      simp [heq, advanced, nodes_stepCost]
    have hdot : s.item.dot = q.item.dot + 1 := by rw [heq, advanced]
    rw [heq]
    exact .scan (h.traced hq) hq hstep hword hterminal haccepts
  | join j done =>
    obtain ⟨q, d, hq, hd, heq⟩ := state?_join.1 hleads
    obtain ⟨q', d', hq', hd', hfinished, hmeets, hwaits⟩ := hvalid
    rw [hq, Option.some.injEq] at hq'
    rw [hd, Option.some.injEq] at hd'
    subst hq' hd'
    obtain ⟨step, hstep, hnonterminal, hnamed⟩ := Task.waitsFor_iff.1 hwaits
    have hnodes : s.score.nodes = q.score.nodes + d.score.nodes := by
      simp [heq, advanced]
    -- both the state before and the part have a node, so each has fewer than the whole
    have hq1 := h.one_le_nodes hq
    have hd1 := h.one_le_nodes hd
    rw [heq]
    exact .join (h.traced hq) (h.traced hd) hq hd hfinished hmeets hstep hnonterminal hnamed
termination_by (s.score.nodes, s.item.dot)
decreasing_by
  · rw [hnodes, hdot]
    exact Prod.Lex.right _ (Nat.lt_succ_self _)
  · exact Prod.Lex.left _ _ (by omega)
  · exact Prod.Lex.left _ _ (by omega)

/-! ## Pointers -/

/-- A state points at another: it is the state with one step less, or the part that matched the last
step. -/
def Points (c : Chart) (target source : Nat) : Prop :=
  ∃ s, c.states[source]? = some s ∧ (s.prev = some target ∨ s.child = some target)

/-- What a traced state points at, directly or not, is traced as well, and tracing is finite. So
following pointers always comes to an end. -/
theorem Traced.acc_points {t : Task} {c : Chart} {s : ChartState} (h : c.Traced t s) {id : Nat}
    (hs : c.states[id]? = some s) : Acc c.Points id := by
  -- by induction on where the state comes from; a pointer leads to one of the premises
  induction h generalizing id with
  | start production usable =>
    refine ⟨_, fun j hj => ?_⟩
    obtain ⟨s', hs', hpoint⟩ := hj
    rw [hs, Option.some.injEq] at hs'
    subst hs'
    simp at hpoint
  | scan traced holds waits said terminal accepts ih =>
    refine ⟨_, fun j hj => ?_⟩
    obtain ⟨s', hs', hpoint⟩ := hj
    rw [hs, Option.some.injEq] at hs'
    subst hs'
    simp only [advanced, Option.some.injEq, reduceCtorEq, or_false] at hpoint
    rw [← hpoint]
    exact ih holds
  | join traced inside holds part finished meets waits nonterminal named ih ihInside =>
    refine ⟨_, fun j hj => ?_⟩
    obtain ⟨s', hs', hpoint⟩ := hj
    rw [hs, Option.some.injEq] at hs'
    subst hs'
    simp only [advanced, Option.some.injEq] at hpoint
    rcases hpoint with rfl | rfl
    · exact ih holds
    · exact ihInside part

/-- Following pointers always comes to an end. -/
theorem Saturated.wellFounded_points {t : Task} {c : Chart} (h : c.Saturated t) :
    WellFounded c.Points := by
  constructor
  intro id
  cases hs : c.states[id]? with
  | some s => exact (h.traced hs).acc_points hs
  -- a number without a state points at nothing
  | none =>
    refine ⟨_, fun j hj => ?_⟩
    obtain ⟨s, hs', _⟩ := hj
    rw [hs] at hs'
    cases hs'

/-- Following pointers never leads back to where one was. -/
theorem Saturated.acyclic_points {t : Task} {c : Chart} (h : c.Saturated t) (id : Nat) :
    ¬ Relation.TransGen c.Points id id := by
  intro hcycle
  have hwell : WellFounded (Relation.TransGen c.Points) := h.wellFounded_points.transGen
  exact hwell.asymmetric id id hcycle hcycle

/-! ## Trails -/

theorem trail_start (c : Chart) (rule pos : Nat) :
    c.trail { item := ⟨rule, pos, pos, 0⟩ } = [{ item := ⟨rule, pos, pos, 0⟩ }] := rfl

/-- The trail of an advanced state is that of the state before it and itself. -/
theorem trail_advanced {c : Chart} {id : Nat} {s : ChartState} (hs : c.states[id]? = some s)
    (stop : Nat) (child : Option Nat) (cost : Score) :
    c.trail (advanced id s stop child cost) = c.trail s ++ [advanced id s stop child cost] := by
  simp [trail, trailOf, advanced, hs]

/-- A trail ends with the state it leads to. -/
theorem exists_trail_eq (c : Chart) (s : ChartState) : ∃ before, c.trail s = before ++ [s] := by
  unfold trail
  cases s.item.dot with
  | zero => exact ⟨[], rfl⟩
  | succ n =>
    rw [trailOf]
    split
    · exact ⟨_, rfl⟩
    · exact ⟨[], rfl⟩

theorem children_start (c : Chart) (rule pos : Nat) :
    c.children { item := ⟨rule, pos, pos, 0⟩ } = [] := rfl

/-- An advanced state has the parts of the state before it and one more. -/
theorem children_advanced {c : Chart} {id : Nat} {s : ChartState} (hs : c.states[id]? = some s)
    (stop : Nat) (child : Option Nat) (cost : Score) :
    c.children (advanced id s stop child cost) = c.children s ++ [child] := by
  obtain ⟨before, hbefore⟩ := exists_trail_eq c s
  have hpos : 1 ≤ (c.trail s).length := by simp [hbefore]
  rw [children, trail_advanced hs, List.drop_append_of_le_length hpos, List.map_append]
  rfl

/-- A state is the state before it, advanced over the next step of their production. -/
structure Follows (g : Grammar) (words : List String) (c : Chart) (s s' : ChartState) : Prop where
  prev : ∃ id, s'.prev = some id ∧ c.states[id]? = some s
  rule_eq : s'.item.rule = s.item.rule
  start_eq : s'.item.start = s.item.start
  dot_eq : s'.item.dot = s.item.dot + 1
  step : ∃ step, (g.stepsAt s.item.rule)[s.item.dot]? = some step
    ∧ (step.nonterminal = true → ∃ done d p, s'.child = some done ∧ c.states[done]? = some d
        ∧ g.productions[d.item.rule]? = some p ∧ p.status.isUsable = true
        ∧ Text.lower p.head = Text.lower step.symbol ∧ d.item.dot = p.steps.length
        ∧ d.item.start = s.item.stop ∧ d.item.stop = s'.item.stop)
    ∧ (step.nonterminal = false → s'.child = none ∧ s'.item.stop = s.item.stop + 1
        ∧ ∃ word, words[s.item.stop]? = some word ∧ step.Accepts word)

/-- The words of a task are those of a sentence in lower case. -/
theorem exists_word {t : Task} {words : List String} (ht : t.words = (words.map Text.lower).toArray)
    {pos : Nat} {lowered : String} (h : t.words[pos]? = some lowered) :
    ∃ word, words[pos]? = some word ∧ Text.lower word = lowered := by
  simpa [ht] using h

/-- All steps of a finished item are matched. -/
theorem take_of_isFinished {t : Task} {i : Item} {p : Production}
    (hp : t.grammar.productions[i.rule]? = some p) (h : t.isFinished i = true) :
    (t.steps i.rule).take i.dot = p.steps := by
  have hsteps : t.steps i.rule = p.steps := by simp [Task.steps, hp]
  rw [hsteps, List.take_of_length_le]
  simpa [Task.isFinished, hsteps] using h

/-- A traced state belongs to a production that may be used. -/
theorem Traced.exists_production {t : Task} {c : Chart} {s : ChartState} (h : c.Traced t s) :
    ∃ p, t.grammar.productions[s.item.rule]? = some p ∧ p.status.isUsable = true := by
  induction h with
  | start production usable => exact ⟨_, production, usable⟩
  | scan _ _ _ _ _ _ ih => exact ih
  | join _ _ _ _ _ _ _ _ _ ih _ => exact ih

section Trail

variable {t : Task} {c : Chart} {words : List String} {s : ChartState}

/-- A scanned state follows the one before it: a word, or anything for a wildcard, takes up its
step. -/
theorem follows_scan (ht : t.words = (words.map Text.lower).toArray) {id : Nat} {step : Step}
    {lowered : String} (hs : c.states[id]? = some s) (hstep : t.nextStep? s.item = some step)
    (hsaid : t.words[s.item.stop]? = some lowered) (hterminal : step.nonterminal = false)
    (haccepts : step.isWild = true ∨ Text.lower step.symbol = lowered) (cost : Score) :
    c.Follows t.grammar words s (advanced id s (s.item.stop + 1) none cost) := by
  obtain ⟨word, hword, rfl⟩ := exists_word ht hsaid
  refine ⟨⟨id, rfl, hs⟩, rfl, rfl, rfl, step, hstep, ?_, ?_⟩
  · intro hnonterminal
    rw [hterminal] at hnonterminal
    cases hnonterminal
  · intro _
    exact ⟨rfl, rfl, word, hword, haccepts⟩

/-- A joined state follows the one before it: the part is finished, derives the head that was waited
for, and covers just the words in between. -/
theorem follows_join (hc : c.WellFormed t) {id done : Nat} {d : ChartState} {step : Step}
    (hd : c.Traced t d) (hs : c.states[id]? = some s) (hpart : c.states[done]? = some d)
    (hfinished : t.isFinished d.item = true) (hmeets : s.item.stop = d.item.start)
    (hstep : t.nextStep? s.item = some step) (hnonterminal : step.nonterminal = true)
    (hnamed : Text.lower step.symbol = t.head d.item) :
    c.Follows t.grammar words s (advanced id s d.item.stop (some done) d.score) := by
  obtain ⟨p, hp, husable⟩ := hd.exists_production
  have hhead : t.head d.item = Text.lower p.head := by simp [Task.head, hp]
  have hsteps : t.steps d.item.rule = p.steps := by simp [Task.steps, hp]
  -- the part has matched all steps of its production, and no more
  have hdot : d.item.dot = p.steps.length := by
    have hle := (hc.proper hpart).dot_le
    rw [hsteps] at hle
    have hge : p.steps.length ≤ d.item.dot := by simpa [Task.isFinished, hsteps] using hfinished
    exact Nat.le_antisymm hle hge
  refine ⟨⟨id, rfl, hs⟩, rfl, rfl, rfl, step, hstep, ?_, ?_⟩
  · intro _
    refine ⟨done, d, p, rfl, hpart, hp, husable, ?_, hdot, hmeets.symm, rfl⟩
    rw [← hhead, hnamed]
  · intro hterminal
    rw [hnonterminal] at hterminal
    cases hterminal

/-- A further state prolongs a trail. -/
theorem isChain_trail_advanced {R : ChartState → ChartState → Prop} {id : Nat}
    (hs : c.states[id]? = some s) (hchain : (c.trail s).IsChain R) {stop : Nat}
    {child : Option Nat} {cost : Score} (hnext : R s (advanced id s stop child cost)) :
    (c.trail (advanced id s stop child cost)).IsChain R := by
  obtain ⟨before, hbefore⟩ := exists_trail_eq c s
  rw [trail_advanced hs, List.isChain_append]
  refine ⟨hchain, List.isChain_singleton _, ?_⟩
  -- the trail so far ends with `s`, and one state follows
  intro x hx y hy
  simp only [hbefore, List.getLast?_append, List.getLast?_singleton, Option.some_or,
    Option.mem_some_iff] at hx
  simp only [List.head?_cons, Option.mem_some_iff] at hy
  rw [← hx, ← hy]
  exact hnext

/-- In the trail of a state each member follows the one before it. -/
theorem Traced.isChain_trail (hc : c.WellFormed t) (ht : t.words = (words.map Text.lower).toArray)
    (h : c.Traced t s) : (c.trail s).IsChain (c.Follows t.grammar words) := by
  induction h with
  | start production usable =>
    rw [trail_start]
    exact List.isChain_singleton _
  | scan _ holds waits said terminal accepts ih =>
    exact isChain_trail_advanced holds ih (follows_scan ht holds waits said terminal accepts _)
  | join _ inside holds part finished meets waits nonterminal named ih _ =>
    exact isChain_trail_advanced holds ih
      (follows_join hc inside holds part finished meets waits nonterminal named)

/-- What is true of starts and survives any further step is true of every state. -/
theorem Traced.induct_advanced {P : ChartState → Prop}
    (hstart : ∀ rule pos, P { item := ⟨rule, pos, pos, 0⟩ })
    (hadvance : ∀ {id : Nat} {q : ChartState}, c.states[id]? = some q → P q →
      ∀ (stop : Nat) (child : Option Nat) (cost : Score), P (advanced id q stop child cost))
    (h : c.Traced t s) : P s := by
  induction h with
  | start production usable => exact hstart _ _
  | scan _ holds _ _ _ _ ih => exact hadvance holds ih _ _ _
  | join _ _ holds _ _ _ _ _ _ ih _ => exact hadvance holds ih _ _ _

/-- A trail has one state for each number of matched steps, from none on. -/
theorem Traced.dots_trail (h : c.Traced t s) :
    (c.trail s).map (·.item.dot) = List.range (s.item.dot + 1) := by
  apply h.induct_advanced
  · intro rule pos
    rfl
  · intro id q hq hdots stop child cost
    rw [trail_advanced hq, List.map_append, hdots]
    exact List.range_succ.symm

/-- A trail keeps to one production and one start, since advancing an item changes its dot and its
stop only. -/
theorem Traced.eq_of_mem_trail (h : c.Traced t s) :
    ∀ q ∈ c.trail s, q.item.rule = s.item.rule ∧ q.item.start = s.item.start := by
  apply h.induct_advanced
  · intro rule pos q hq
    rw [trail_start, List.mem_singleton] at hq
    rw [hq]
    exact ⟨rfl, rfl⟩
  · intro id s hs ih stop child cost q hq
    rw [trail_advanced hs, List.mem_append, List.mem_singleton] at hq
    rcases hq with hq | rfl
    · exact ih q hq
    · exact ⟨rfl, rfl⟩

end Trail

/-! ## Trees -/

/-- The tree that stands for a matched step: what the part describes, or a word. -/
def partTree (c : Chart) (child : Option Nat) : Tree :=
  match child.bind (c.states[·]?) with
  | some d => c.tree d
  | none => .word

/-- A finished part has fewer nodes than the whole. A state counts one node for itself and those of
its parts, which is what makes reading a tree back end. -/
theorem Traced.nodes_lt {t : Task} {c : Chart} (hc : c.Saturated t) {s : ChartState}
    (h : c.Traced t s) {done : Nat} {d : ChartState} (hmem : some done ∈ c.children s)
    (hd : c.states[done]? = some d) : d.score.nodes < s.score.nodes := by
  -- a part of the state before is smaller than that one, which is no larger than the whole
  induction h with
  | start production usable => simp [children_start] at hmem
  | scan _ holds _ _ _ _ ih =>
    rw [children_advanced holds, List.mem_append] at hmem
    have hlt := ih (hmem.resolve_right (by simp))
    simp only [advanced, Score.nodes_add]
    omega
  | join _ _ holds part _ _ _ _ _ ih _ =>
    rw [children_advanced holds, List.mem_append, List.mem_singleton, Option.some.injEq] at hmem
    -- the last part has the nodes of the whole less those before it, and there is one at least
    have hone := hc.one_le_nodes holds
    simp only [advanced, Score.nodes_add]
    rcases hmem with hmem | rfl
    · have hlt := ih hmem
      omega
    · rw [hd, Option.some.injEq] at part
      subst part
      omega

/-- The derivation of a state has the derivations of its parts. -/
theorem Traced.tree_eq {t : Task} {c : Chart} (hc : c.Saturated t) {s : ChartState}
    (h : c.Traced t s) :
    c.tree s
      = .node s.item.rule s.item.start s.item.stop ((c.children s).map c.partTree) := by
  rw [tree, Tree.node.injEq]
  refine ⟨rfl, rfl, rfl, List.map_congr_left fun child hmem => ?_⟩
  -- reading back asks whether a part has fewer nodes, and it always has
  cases hd : child.bind (c.states[·]?) with
  | none => simp only [partTree, hd]
  | some d =>
    obtain ⟨done, rfl, hd'⟩ := Option.bind_eq_some_iff.1 hd
    have hlt := h.nodes_lt hc hmem hd'
    simp only [partTree, hd, if_pos hlt]

section Trees

variable {t : Task} {c : Chart} {words : List String} {s : ChartState}

/-- A further step adds its part. -/
theorem expands_advanced {id stop : Nat} {child : Option Nat} {step : Step}
    (hs : c.states[id]? = some s) (hstep : t.nextStep? s.item = some step)
    (h : t.grammar.Expands words ((t.steps s.item.rule).take s.item.dot) s.item.start s.item.stop
      ((c.children s).map c.partTree))
    (hone : t.grammar.Expands words [step] s.item.stop stop [c.partTree child]) (cost : Score) :
    t.grammar.Expands words ((t.steps s.item.rule).take (s.item.dot + 1)) s.item.start stop
      ((c.children (advanced id s stop child cost)).map c.partTree) := by
  have hget : (t.steps s.item.rule)[s.item.dot]? = some step := hstep
  rw [children_advanced hs, List.map_append, List.take_add_one, hget]
  exact h.append hone

/-- The parts of a state match the steps before its dot: a word for a terminal, and for a head the
tree of a finished state of that head, between the boundaries at which it starts and stops. -/
theorem Traced.expands (hc : c.Saturated t) (ht : t.words = (words.map Text.lower).toArray)
    (h : c.Traced t s) :
    t.grammar.Expands words ((t.steps s.item.rule).take s.item.dot) s.item.start s.item.stop
      ((c.children s).map c.partTree) := by
  -- by induction on where the state comes from, one step of the expansion for each case
  induction h with
  | start production usable =>
    rw [children_start, List.take_zero]
    exact .nil _
  | scan _ holds waits said terminal accepts ih =>
    obtain ⟨word, hword, rfl⟩ := exists_word ht said
    exact expands_advanced holds waits ih (.word terminal hword accepts (.nil _)) _
  | @join id done s d step _ inside holds part finished meets waits nonterminal named ih ihInside =>
    obtain ⟨p, hp, husable⟩ := inside.exists_production
    have hhead : Text.lower p.head = Text.lower step.symbol := by
      rw [named]
      simp [Task.head, hp]
    rw [take_of_isFinished hp finished, ← meets] at ihInside
    -- the finished part is a node over just the words between the boundaries of its step
    refine expands_advanced holds waits ih ?_ _
    have htree : c.partTree (some done) = c.tree d := by simp [partTree, part]
    rw [htree, inside.tree_eq hc, ← meets]
    exact .head nonterminal hp husable hhead ihInside (.nil _)

/-- A state has one part for each step that it has matched. -/
theorem Traced.length_children (h : c.Traced t s) : (c.children s).length = s.item.dot := by
  have hdots := congrArg List.length h.dots_trail
  rw [List.length_map, List.length_range] at hdots
  rw [children, List.length_map, List.length_drop, hdots]
  exact Nat.add_sub_cancel _ _

/-- The score of a tree that is read back is counted over the steps before the dot. -/
theorem Traced.score_tree_eq (hc : c.Saturated t) (h : c.Traced t s) :
    (c.tree s).score t.grammar
      = ownScore ((t.steps s.item.rule).take s.item.dot)
        + Tree.scores t.grammar ((c.children s).map c.partTree) := by
  rw [h.tree_eq hc, Tree.score_node, List.length_map, h.length_children]
  rfl

/-- The score of a state is what its own steps and its parts come to. Scores are added up along the
run; here they are found again in the tree, wildcard by wildcard and node by node. -/
theorem Traced.score_eq (hc : c.Saturated t) (h : c.Traced t s) :
    s.score = ownScore ((t.steps s.item.rule).take s.item.dot)
      + Tree.scores t.grammar ((c.children s).map c.partTree) := by
  induction h with
  | start production usable =>
    rw [children_start, List.take_zero, ownScore_nil]
    simp
  | @scan id s step lowered _ holds waits said terminal accepts ih =>
    rw [children_advanced holds, List.map_append, Tree.scores_append]
    have hword : Tree.scores t.grammar ([none].map c.partTree) = 0 := by
      simp [partTree]
    simp only [advanced]
    rw [hword, add_zero, ownScore_take_succ (Task.dot_lt waits), ih, add_right_comm]
  | @join id done s d step _ inside holds part finished meets waits nonterminal named ih ihInside =>
    -- all that a head costs is what its part costs
    have hcost : stepCost (t.steps s.item.rule) s.item.dot = 0 :=
      stepCost_of_nonterminal waits nonterminal
    have hpart : Tree.scores t.grammar ([some done].map c.partTree) = d.score := by
      have htree : c.partTree (some done) = c.tree d := by simp [partTree, part]
      rw [List.map_singleton, htree, Tree.scores_cons, Tree.scores_nil, add_zero,
        inside.score_tree_eq hc, ihInside]
    rw [children_advanced holds, List.map_append, Tree.scores_append]
    simp only [advanced]
    rw [hpart, ownScore_take_succ (Task.dot_lt waits), hcost, add_zero, ← add_assoc, ← ih]

/-- The score of a state is the score of the tree that is read back from it. -/
theorem Traced.score_tree (hc : c.Saturated t) (h : c.Traced t s) :
    (c.tree s).score t.grammar = s.score := by
  rw [h.score_tree_eq hc, ← h.score_eq hc]

/-- A finished state stands for a derivation. -/
theorem Traced.derivation (hc : c.Saturated t) (ht : t.words = (words.map Text.lower).toArray)
    (h : c.Traced t s) (hfinished : t.isFinished s.item = true) :
    t.grammar.Derivation words (c.tree s) := by
  obtain ⟨p, hp, husable⟩ := h.exists_production
  have hexpands := h.expands hc ht
  rw [take_of_isFinished hp hfinished] at hexpands
  rw [h.tree_eq hc]
  exact ⟨p, hp, husable, hexpands⟩

end Trees

end Chart

end Utterance
