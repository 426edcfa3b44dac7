import Utterance.Chart

/-!
# Derivation trees

The tree that a state of a chart stands for, read back through its pointers. A node names its
production by position, so what is shown of a tree depends on the grammar it is shown with.
-/

namespace Utterance

/-- A derivation. -/
inductive Tree where
  /-- One word, matched by a word or a wildcard. -/
  | word
  /-- A production over the words from `start` to just before `stop`, with a part for each step. -/
  | node (rule start stop : Nat) (parts : List Tree)

/-! ## Reading back -/

namespace Chart

/-- The last `n` states that led to a state, and the state itself. -/
def trailOf (c : Chart) : Nat → ChartState → List ChartState
  | 0, s => [s]
  | n + 1, s =>
    match s.prev.bind (c.states[·]?) with
    | some p => trailOf c n p ++ [s]
    | none => [s]

/-- The states that led to a state, one for each number of matched steps from none on. -/
def trail (c : Chart) (s : ChartState) : List ChartState := c.trailOf s.item.dot s

/-- The finished state that matched each step of a state; nothing for words. -/
def children (c : Chart) (s : ChartState) : List (Option Nat) := ((c.trail s).drop 1).map (·.child)

/-- The positions before each matched step of a state, and the one after the last. -/
def boundaries (c : Chart) (s : ChartState) : List Nat := (c.trail s).map (·.item.stop)

/-- The derivation of a state. A part has fewer nodes than the whole. -/
def tree (c : Chart) (s : ChartState) : Tree :=
  .node s.item.rule s.item.start s.item.stop
    ((c.children s).map fun child =>
      match child.bind (c.states[·]?) with
      | some part => if part.score.nodes < s.score.nodes then c.tree part else .word
      | none => .word)
termination_by s.score.nodes

/-- The state with a number; a negative number counts from the end. -/
def at? (c : Chart) (id : Int) : Option ChartState :=
  if 0 ≤ id then c.states[id.toNat]?
  else if -(c.states.size : Int) ≤ id then c.states[(c.states.size + id).toNat]?
  else none

end Chart

/-! ## Shown with a grammar -/

namespace Tree

/-- First word and last word of a node. -/
def span? : Tree → Option (Nat × Nat)
  | .word => none
  | .node _ start stop _ => some (start, stop - 1)

/-- The position after a part that starts at `pos`. -/
def endFrom (pos : Nat) : Tree → Nat
  | .word => pos + 1
  | .node _ _ stop _ => stop

/-- The production at a node. -/
def production (g : Grammar) : Tree → Except Fault Production
  | .word => .error .outOfRange
  | .node rule _ _ _ =>
    match g.productions[rule]? with
    | some p => .ok p
    | none => .error .outOfRange

/-- The parts of a node. -/
def parts : Tree → List Tree
  | .word => []
  | .node _ _ _ parts => parts

/-- The names of the heads in a node's production. -/
def labels (g : Grammar) (t : Tree) : Except Fault (List String) :=
  (t.production g).map fun p => (p.steps.filter (·.nonterminal)).map (·.symbol)

/-- The parts that match the heads in a node's production. -/
def subtrees (g : Grammar) (t : Tree) : Except Fault (List Tree) :=
  (t.production g).map fun p =>
    ((p.steps.zip t.parts).filter fun (step, _) => step.nonterminal).map (·.2)

mutual

/-- Number of nodes and words. -/
def size : Tree → Nat
  | .word => 1
  | .node _ _ _ parts => sizes parts + 1

/-- Number of nodes and words of several trees. -/
def sizes : List Tree → Nat
  | [] => 0
  | t :: ts => t.size + sizes ts

end

/-- A tree is no larger than a list of trees that it is in. -/
theorem size_le_sizes {k : Tree} {ts : List Tree} (h : k ∈ ts) : k.size ≤ sizes ts := by
  induction ts with
  | nil => simp at h
  | cons t ts ih =>
    rw [sizes]
    rcases List.mem_cons.1 h with rfl | h
    · omega
    · have := ih h
      omega

/-- A part is smaller than the whole. -/
theorem size_lt_of_mem_parts {t k : Tree} (h : k ∈ t.parts) : k.size < t.size := by
  cases t with
  | word => simp [parts] at h
  | node rule start stop ps =>
    rw [size]
    exact Nat.lt_succ_of_le (size_le_sizes h)

/-- A part for a head is a part. -/
theorem mem_parts_of_subtrees {g : Grammar} {t k : Tree} {ks : List Tree}
    (h : t.subtrees g = .ok ks) (hk : k ∈ ks) : k ∈ t.parts := by
  unfold subtrees at h
  cases hp : t.production g with
  | error e => simp [hp, Except.map] at h
  | ok p =>
    simp only [hp, Except.map, Except.ok.injEq] at h
    subst h
    simp only [List.mem_map, List.mem_filter] at hk
    obtain ⟨⟨step, part⟩, ⟨hmem, _⟩, rfl⟩ := hk
    exact (List.of_mem_zip hmem).2

/-! ## Spelling -/

mutual

/-- `spelling` with each word that a fixed step matched in the spelling of the grammar, and each word
that a wildcard matched as it was said. Stops with what is done so far at a production that the
grammar does not have. -/
def spell (g : Grammar) (words : Array String) :
    Tree → Array String → Array String × Option Fault
  | .word, spelling => (spelling, none)
  | .node rule start _ parts, spelling =>
    match g.productions[rule]? with
    | some p => spellParts g words p.steps start parts spelling
    | none => (spelling, some .outOfRange)

/-- Spells the parts of a node from position `pos` on. -/
def spellParts (g : Grammar) (words : Array String) (steps : List Step) (pos : Nat) :
    List Tree → Array String → Array String × Option Fault
  | [], spelling => (spelling, none)
  | part :: rest, spelling =>
    match steps with
    | [] => (spelling, none)
    | step :: steps =>
      if step.nonterminal then
        -- a part that was a word when the tree was built has nothing to spell
        match spell g words part spelling with
        | (spelling, some e) => (spelling, some e)
        | (spelling, none) => spellParts g words steps (part.endFrom pos) rest spelling
      else
        let text := if step.isWild then (words[pos]?).getD "" else step.symbol
        spellParts g words steps (part.endFrom pos) rest (spelling.setIfInBounds pos text)

end

end Tree

end Utterance
