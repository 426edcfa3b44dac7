import Utterance.Proofs.AssocList.Entries

/-!
# Outlines of derivations

The outline of a derivation is the ordered tree of its nodes: the root with the head of its production
as its name, each other node with the name of the step that it is a part for. Words do not stand in it,
but each node tells which words are inside. A place in an outline says from a node up which part of its
parent each node is.
-/

namespace Utterance

/-- An ordered tree of named nodes, each over the words from `start` to just before `stop`. -/
structure Outline where
  label : String
  start : Nat
  stop : Nat
  inner : List Outline

namespace Outline

/-- The node at a place. -/
def at? (o : Outline) : List Nat → Option Outline
  | [] => some o
  | i :: place => (o.at? place).bind fun parent => parent.inner[i]?

@[simp] theorem at?_nil (o : Outline) : o.at? [] = some o := rfl

@[simp] theorem at?_cons (o : Outline) (i : Nat) (place : List Nat) :
    o.at? (i :: place) = (o.at? place).bind fun parent => parent.inner[i]? := rfl

end Outline

/-! ## From derivations -/

namespace Tree

mutual

/-- The outline of a node that is named `label`; a word has none. -/
def outline? (g : Grammar) (label : String) : Tree → Option Outline
  | .word => none
  | .node rule start stop parts => some ⟨label, start, stop, outlinesOf g (g.stepsAt rule) parts⟩

/-- The outlines of the parts that match the heads among steps. -/
def outlinesOf (g : Grammar) (steps : List Step) : List Tree → List Outline
  | [] => []
  | part :: rest =>
    match steps with
    | [] => []
    | step :: steps =>
      (if step.nonterminal then (outline? g step.symbol part).toList else [])
        ++ outlinesOf g steps rest

end

variable {g : Grammar} {step : Step}

theorem outlinesOf_nil (steps : List Step) : outlinesOf g steps [] = [] := by
  rw [outlinesOf]

/-- A word is no node. -/
theorem outlinesOf_terminal (h : step.nonterminal = false) (steps : List Step) (part : Tree)
    (rest : List Tree) :
    outlinesOf g (step :: steps) (part :: rest) = outlinesOf g steps rest := by
  rw [outlinesOf]
  simp [h]

/-- The part of a head is a node with the name of the head. -/
theorem outlinesOf_nonterminal (h : step.nonterminal = true) (steps : List Step)
    (rule start stop : Nat) (parts rest : List Tree) :
    outlinesOf g (step :: steps) (.node rule start stop parts :: rest)
      = ⟨step.symbol, start, stop, outlinesOf g (g.stepsAt rule) parts⟩
        :: outlinesOf g steps rest := by
  rw [outlinesOf]
  simp [h, outline?]

/-- Without heads there is nothing inside. -/
theorem outlinesOf_eq_nil {steps : List Step} (h : steps.find? (·.nonterminal) = none)
    (parts : List Tree) : outlinesOf g steps parts = [] := by
  induction parts generalizing steps with
  | nil => exact outlinesOf_nil steps
  | cons part parts ih =>
    cases steps with
    | nil => rw [outlinesOf]
    | cons step steps =>
      rw [List.find?_eq_none] at h
      have hstep : step.nonterminal = false := by simpa using h step (List.mem_cons_self ..)
      rw [outlinesOf_terminal hstep]
      apply ih
      rw [List.find?_eq_none]
      exact fun s hs => h s (List.mem_cons_of_mem _ hs)

end Tree

/-! ## A node and its parts -/

/-- A derivation and its outline. -/
structure Outlined (g : Grammar) (words : List String) (tree : Tree) (o : Outline) : Prop where
  derivation : g.Derivation words tree
  outline : tree.outline? g o.label = some o

variable {g : Grammar} {words : List String} {tree : Tree} {o o' : Outline}

/-- A derivation of a whole sentence by a production has the outlines of the parts inside. The root
may be given any name, because a root has no step that names it. -/
theorem Grammar.exists_parts_of_mem_derivations {rule : Nat} {p : Production}
    (hp : g.productions[rule]? = some p) (h : tree ∈ g.derivations words rule) (label : String) :
    ∃ parts, tree = .node rule 0 words.length parts
      ∧ g.Expands words p.steps 0 words.length parts
      ∧ Outlined g words tree ⟨label, 0, words.length, Tree.outlinesOf g p.steps parts⟩ := by
  obtain ⟨parts, rfl, hderivation⟩ := h
  have hderivation' := hderivation
  obtain ⟨q, hq, _, hexpands⟩ := hderivation
  rw [hp, Option.some.injEq] at hq
  subst hq
  refine ⟨parts, rfl, hexpands, hderivation', ?_⟩
  rw [Tree.outline?, Grammar.stepsAt_eq hp]

/-- A derivation of a whole sentence has an outline that is named by the head of its production. -/
theorem Grammar.exists_outlined_of_mem_derivations {rule : Nat} (h : tree ∈ g.derivations words rule) :
    ∃ p inner, g.productions[rule]? = some p
      ∧ Outlined g words tree ⟨p.head, 0, words.length, inner⟩ := by
  obtain ⟨p, _, hp, _, _⟩ := Grammar.exists_of_mem_derivations h
  obtain ⟨_, _, _, houtlined⟩ := exists_parts_of_mem_derivations hp h p.head
  exact ⟨p, _, hp, houtlined⟩

/-- The parts for heads have the inner outlines, in order, named by the heads. Parts for words have
none, so they are filtered out first. -/
theorem Grammar.Expands.forall₂_outlinesOf {steps : List Step} {pos stop : Nat} {parts : List Tree}
    (h : g.Expands words steps pos stop parts) :
    List.Forall₂ (fun pair o => pair.1.symbol = o.label ∧ Outlined g words pair.2 o)
      ((steps.zip parts).filter fun pair => pair.1.nonterminal) (Tree.outlinesOf g steps parts) := by
  induction h with
  | nil pos =>
    rw [Tree.outlinesOf_nil]
    exact .nil
  | word terminal _ _ _ ih =>
    rw [Tree.outlinesOf_terminal terminal, List.zip_cons_cons,
      List.filter_cons_of_neg (by simp [terminal])]
    exact ih
  | head nonterminal production usable _ inside _ _ ih =>
    rw [Tree.outlinesOf_nonterminal nonterminal, List.zip_cons_cons,
      List.filter_cons_of_pos (by simpa using nonterminal)]
    refine .cons ⟨rfl, ⟨_, production, usable, inside⟩, ?_⟩ ih
    rw [Tree.outline?]

/-- The heads among steps name the outlines of their parts. -/
theorem Grammar.Expands.map_label_outlinesOf {steps : List Step} {pos stop : Nat} {parts : List Tree}
    (h : g.Expands words steps pos stop parts) :
    (Tree.outlinesOf g steps parts).map Outline.label
      = (steps.filter (·.nonterminal)).map Step.symbol := by
  induction h with
  | nil pos =>
    rw [Tree.outlinesOf_nil]
    rfl
  | word terminal _ _ _ ih =>
    rw [Tree.outlinesOf_terminal terminal, List.filter_cons_of_neg (by simp [terminal])]
    exact ih
  | head nonterminal _ _ _ _ _ _ ih =>
    rw [Tree.outlinesOf_nonterminal nonterminal, List.filter_cons_of_pos nonterminal, List.map_cons,
      List.map_cons, ih]

/-- Nothing is derived from beyond the last word. -/
theorem Grammar.Expands.stop_le_max {steps : List Step} {pos stop : Nat} {parts : List Tree}
    (h : g.Expands words steps pos stop parts) : stop ≤ max pos words.length := by
  induction h with
  | nil pos => exact Nat.le_max_left ..
  | word _ said _ _ ih =>
    have hlt := (List.getElem?_eq_some_iff.1 said).1
    omega
  | head _ _ _ _ _ _ ihInside ih => omega

namespace Outlined

/-- What an outlined node is. -/
theorem exists_node (h : Outlined g words tree o) :
    ∃ rule p parts, tree = .node rule o.start o.stop parts ∧ g.productions[rule]? = some p
      ∧ g.Expands words p.steps o.start o.stop parts ∧ o.inner = Tree.outlinesOf g p.steps parts := by
  obtain ⟨derivation, outline⟩ := h
  cases tree with
  | word => cases outline
  | node rule start stop parts =>
    obtain ⟨p, hp, _, hexpands⟩ := derivation
    rw [Tree.outline?, Grammar.stepsAt_eq hp, Option.some.injEq] at outline
    rw [← outline]
    exact ⟨rule, p, parts, rfl, hp, hexpands, rfl⟩

theorem span?_eq (h : Outlined g words tree o) : tree.span? = some (o.start, o.stop - 1) := by
  obtain ⟨rule, p, parts, rfl, _⟩ := h.exists_node
  rfl

/-- A node has words inside. -/
theorem start_lt_stop (hg : g.Coherent) (h : Outlined g words tree o) : o.start < o.stop := by
  obtain ⟨rule, p, parts, _, hp, hexpands, _⟩ := h.exists_node
  exact hexpands.lt hg hp

/-- These are words of the sentence. -/
theorem stop_le (hg : g.Coherent) (h : Outlined g words tree o) : o.stop ≤ words.length := by
  have hlt := h.start_lt_stop hg
  obtain ⟨rule, p, parts, _, hp, hexpands, _⟩ := h.exists_node
  have hle := hexpands.stop_le_max
  omega

/-- The heads of a node's production name its inner nodes. -/
theorem label?_eq (h : Outlined g words tree o) (i : Nat) :
    Cursor.label? g tree (i + 1) = .ok (o.inner[i]?.map Outline.label) := by
  obtain ⟨rule, p, parts, rfl, hp, hexpands, hinner⟩ := h.exists_node
  have hlabels := hexpands.map_label_outlinesOf
  rw [← hinner] at hlabels
  simp only [Cursor.label?, Tree.labels, Tree.production, hp, Except.map, ← hlabels,
    Nat.add_sub_cancel, List.getElem?_map]

/-- Each inner node is a part of its own. -/
theorem exists_part? (h : Outlined g words tree o) {i : Nat} (hi : o.inner[i]? = some o') :
    ∃ part, Cursor.part? g tree (i + 1) = .ok (some part) ∧ Outlined g words part o' := by
  obtain ⟨rule, p, parts, rfl, hp, hexpands, hinner⟩ := h.exists_node
  have hparts := hexpands.forall₂_outlinesOf
  rw [hinner] at hi
  obtain ⟨hlt, rfl⟩ := List.getElem?_eq_some_iff.1 hi
  have hlt' := hlt
  rw [← hparts.length_eq] at hlt'
  refine ⟨_, ?_, (hparts.get hlt' hlt).2⟩
  simp only [Cursor.part?, Tree.subtrees, Tree.production, Tree.parts, hp, Except.map,
    Nat.add_sub_cancel, List.getElem?_map, List.getElem?_eq_getElem hlt', Option.map_some]
  rfl

end Outlined

/-! ## A small outline -/

namespace Analysis

/-- The outline of an outing is a slot inside a phrase. -/
theorem outline?_outing :
    outing.outline? topOutings "!go" = some ⟨"!go", 0, 2, [⟨"PLACE", 1, 2, []⟩]⟩ := by
  have hslot := (@production_topOutings 1 ⟨1, "PLACE", [⟨"#", false⟩], .top⟩).2 (.inr ⟨rfl, rfl⟩)
  rw [outing, Tree.outline?, Grammar.stepsAt_eq (production_topOutings.2 (.inl ⟨rfl, rfl⟩)),
    Tree.outlinesOf_terminal rfl, Tree.outlinesOf_nonterminal rfl, Tree.outlinesOf_nil,
    Grammar.stepsAt_eq hslot, Tree.outlinesOf_terminal rfl, Tree.outlinesOf_nil]

end Analysis

end Utterance
