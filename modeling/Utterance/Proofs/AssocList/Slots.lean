import Utterance.Proofs.AssocList.Tour
import Utterance.Proofs.Derivation
import Utterance.Proofs.Grammar.Built

/-!
# Slots of a derivation

The entries of a derivation, said by recursion on the tree. A node is named by the step that it is a
part for, the root by the head of its production. A name that starts with a marker opens a phrase; a
name without a small letter is a slot with the first inner name or the words as its value; any other
node has the entries of its inner nodes from left to right. A cursor that is moved through a derivation
collects these entries.
-/

namespace Utterance

/-! ## By recursion on the tree -/

namespace Tree

/-- Value of a slot: the first inner name, or the words if there is none or a caret says so. -/
def slotValue (label : String) (steps : List Step) (words : List String) : String :=
  match steps.find? (·.nonterminal) with
  | some step => if label.toList.head? = some '^' then " ".intercalate words else step.symbol
  | none => " ".intercalate words

mutual

/-- The entries of a node that is named `label`. -/
def entries (g : Grammar) (spelling : List String) (closing : Bool) (label : String) :
    Tree → List String
  | .word => []
  | .node rule start stop parts =>
    AssocList.enclose closing label
      (if label.toList.any Text.isLower then
        entriesOf g spelling closing (g.stepsAt rule) parts
      else
        [AssocList.slotEntry label
          (slotValue label (g.stepsAt rule) ((spelling.take stop).drop start))])

/-- The entries of the parts that match the heads among steps. -/
def entriesOf (g : Grammar) (spelling : List String) (closing : Bool) (steps : List Step) :
    List Tree → List String
  | [] => []
  | part :: rest =>
    match steps with
    | [] => []
    | step :: steps =>
      (if step.nonterminal then entries g spelling closing step.symbol part else [])
        ++ entriesOf g spelling closing steps rest

end

variable {g : Grammar} {spelling : List String} {closing : Bool}

theorem entriesOf_nil (steps : List Step) : entriesOf g spelling closing steps [] = [] := by
  rw [entriesOf]

/-- A word has no entries. -/
theorem entriesOf_terminal {step : Step} (h : step.nonterminal = false) (steps : List Step)
    (part : Tree) (rest : List Tree) :
    entriesOf g spelling closing (step :: steps) (part :: rest)
      = entriesOf g spelling closing steps rest := by
  rw [entriesOf]
  simp [h]

/-- The part of a head has the entries of a node with the name of the head. -/
theorem entriesOf_nonterminal {step : Step} (h : step.nonterminal = true) (steps : List Step)
    (part : Tree) (rest : List Tree) :
    entriesOf g spelling closing (step :: steps) (part :: rest)
      = part.entries g spelling closing step.symbol ++ entriesOf g spelling closing steps rest := by
  rw [entriesOf]
  simp [h]

/-- Without heads there are no entries. -/
theorem entriesOf_eq_nil {steps : List Step} (h : steps.find? (·.nonterminal) = none)
    (parts : List Tree) : entriesOf g spelling closing steps parts = [] := by
  induction parts generalizing steps with
  | nil => exact entriesOf_nil steps
  | cons part parts ih =>
    cases steps with
    | nil => rw [entriesOf]
    | cons step steps =>
      rw [List.find?_eq_none] at h
      have hstep : step.nonterminal = false := by simpa using h step (List.mem_cons_self ..)
      rw [entriesOf_terminal hstep]
      apply ih
      rw [List.find?_eq_none]
      exact fun s hs => h s (List.mem_cons_of_mem _ hs)

end Tree

/-! ## Where a cursor stands -/

namespace Cursor

variable {g : Grammar} {c : Cursor} {rule start stop : Nat} {p : Production}

/-- The label that a cursor shows behind some steps is the first head among the steps after them. -/
theorem label?_split {before steps : List Step} (hp : g.productions[rule]? = some p)
    (hsplit : p.steps = before ++ steps) (parts : List Tree) :
    label? g (.node rule start stop parts) (before.countP (·.nonterminal) + 1)
      = .ok ((steps.find? (·.nonterminal)).map (·.symbol)) := by
  simp only [label?, Tree.labels, Tree.production, hp, Except.map, hsplit, List.filter_append,
    List.map_append, Nat.add_sub_cancel, List.countP_eq_length_filter]
  -- the heads before are counted off, so what follows is the first one among the other steps
  rw [List.getElem?_append_right (by simp)]
  simp [← List.head?_eq_getElem?, List.head?_filter]

/-- The first label that a cursor shows at a node is the first head of its production. -/
theorem label?_first (hp : g.productions[rule]? = some p) (parts : List Tree) :
    label? g (.node rule start stop parts) 1
      = .ok ((p.steps.find? (·.nonterminal)).map (·.symbol)) :=
  @label?_split g rule start stop p [] p.steps hp rfl parts

/-- The part that a cursor goes down to behind some steps is the one of the next head. -/
theorem part?_split {before steps : List Step} {step : Step} {done parts : List Tree} {part : Tree}
    (hp : g.productions[rule]? = some p) (hsplit : p.steps = before ++ step :: steps)
    (hlength : done.length = before.length) (hstep : step.nonterminal = true) :
    part? g (.node rule start stop (done ++ part :: parts)) (before.countP (·.nonterminal) + 1)
      = .ok (some part) := by
  -- parts go with steps, so there are as many parts of heads before as heads
  have hbefore : ((before.zip done).filter fun pair => pair.1.nonterminal).length
      = before.countP (·.nonterminal) := by
    have hfst : (before.zip done).map Prod.fst = before := List.map_fst_zip (by omega)
    rw [← List.countP_eq_length_filter, ← hfst, List.countP_map, hfst]
    rfl
  simp only [part?, Tree.subtrees, Tree.production, Tree.parts, hp, Except.map, hsplit,
    List.zip_append hlength.symm, List.filter_append, List.map_append, Nat.add_sub_cancel]
  rw [List.getElem?_append_right (by simp [hbefore])]
  simp [hbefore, hstep]

/-- A cursor looks at the first head among the last steps of a node's production. -/
inductive Ahead (g : Grammar) : Cursor → List Step → List Tree → Prop where
  | intro {rule start stop : Nat} {p : Production} {before steps : List Step}
      {done parts : List Tree} {rest : Cursor} (production : g.productions[rule]? = some p)
      (split : p.steps = before ++ steps) (length : done.length = before.length) :
      Ahead g (⟨.node rule start stop (done ++ parts), before.countP (·.nonterminal) + 1⟩ :: rest)
        steps parts

/-- A cursor stands at a node that is named `label`: it shows the name and the words of the node, and
goes down to its first head if there is one. -/
structure At (g : Grammar) (c : Cursor) (label : String) (rule start stop : Nat)
    (parts : List Tree) : Prop where
  grounded : c.Grounded
  focus : c.focus g = .ok (some label)
  span : c.span g = .ok (some (start, stop - 1))
  down : ∃ rest, c.down g = .ok (((g.stepsAt rule).find? (·.nonterminal)).map
    fun _ => ⟨.node rule start stop parts, 1⟩ :: rest)

theorem ahead_first (hp : g.productions[rule]? = some p) (parts : List Tree) (rest : Cursor) :
    Ahead g (⟨.node rule start stop parts, 1⟩ :: rest) p.steps parts :=
  @Ahead.intro g rule start stop p [] p.steps [] parts rest hp rfl rfl

/-- A cursor that was just made stands at the root. -/
theorem at_root (hp : g.productions[rule]? = some p) (parts : List Tree) :
    At g (root (.node rule start stop parts)) p.head rule start stop parts where
  grounded := grounded_root _
  focus := by simp [root, focus, Tree.production, hp, Except.map]
  span := rfl
  down := by
    refine ⟨[], ?_⟩
    simp only [root, down, label?_first hp, if_true, Grammar.stepsAt_eq hp]
    cases p.steps.find? (·.nonterminal) <;> rfl

namespace Ahead

variable {steps : List Step} {step : Step} {parts : List Tree} {part : Tree}

/-- A cursor shows the head that it looks at. -/
theorem focus_eq (h : Ahead g c steps parts) :
    c.focus g = .ok ((steps.find? (·.nonterminal)).map (·.symbol)) := by
  cases h with
  | intro production split _ =>
    rw [focus, if_neg (Nat.add_one_ne_zero _)]
    exact label?_split production split _

/-- Words and wildcards are not looked at. -/
theorem skip (h : Ahead g c (step :: steps) (part :: parts)) (hstep : step.nonterminal = false) :
    Ahead g c steps parts := by
  cases h with
  | @intro rule start stop p before _ done _ rest production split length =>
    have hahead : Ahead g (⟨.node rule start stop ((done ++ [part]) ++ parts),
        (before ++ [step]).countP (·.nonterminal) + 1⟩ :: rest) steps parts :=
      .intro production (by simpa using split) (by simpa using length)
    -- no head was passed, so the mark is the same
    simpa [hstep] using hahead

/-- The head that is looked at stands for its part: it shows its name and its words, and a move down
leads to its own first head. -/
theorem toAt {inner : List Tree} (h : Ahead g c (step :: steps) (.node rule start stop inner :: parts))
    (hstep : step.nonterminal = true) (hp : g.productions[rule]? = some p) :
    At g c step.symbol rule start stop inner where
  grounded := by
    cases h
    exact fun hmark => absurd hmark (Nat.add_one_ne_zero _)
  focus := by rw [h.focus_eq, List.find?_cons_of_pos hstep, Option.map_some]
  span := by
    cases h with
    | intro production split length =>
      rw [span, if_neg (Nat.add_one_ne_zero _), part?_split production split length hstep]
      rfl
  down := by
    cases h with
    | @intro rule' start' stop' _ before _ done _ rest production split length =>
      refine ⟨⟨.node rule' start' stop' (done ++ .node rule start stop inner :: parts),
        before.countP (·.nonterminal) + 1⟩ :: rest, ?_⟩
      rw [down, if_neg (Nat.add_one_ne_zero _), part?_split production split length hstep]
      simp only [label?_first hp, Grammar.stepsAt_eq hp]
      cases p.steps.find? (·.nonterminal) <;> rfl

/-- A move on looks at the next head, if there is one, and passes the words between the two. -/
theorem next_eq (h : Ahead g c (step :: steps) (part :: parts)) (hstep : step.nonterminal = true) :
    ∃ beside, c.next g = .ok ((steps.find? (·.nonterminal)).map fun _ => beside)
      ∧ Ahead g beside steps parts := by
  cases h with
  | @intro rule start stop p before _ done _ rest production split length =>
    -- the head that is left counts among those before now
    have hsplit : p.steps = (before ++ [step]) ++ steps := by simpa using split
    have hahead : Ahead g (⟨.node rule start stop ((done ++ [part]) ++ parts),
        (before ++ [step]).countP (·.nonterminal) + 1⟩ :: rest) steps parts :=
      .intro production hsplit (by simpa using length)
    have hcount : (before ++ [step]).countP (·.nonterminal) = before.countP (·.nonterminal) + 1 := by
      simp [hstep]
    have hlabel := @label?_split g rule start stop p _ steps production hsplit
      (done ++ part :: parts)
    rw [hcount] at hlabel hahead
    simp only [List.append_assoc, List.singleton_append] at hahead
    refine ⟨_, ?_, hahead⟩
    rw [next, if_neg (Nat.add_one_ne_zero _)]
    simp only [hlabel]
    cases steps.find? (·.nonterminal) <;> rfl

end Ahead

end Cursor

/-! ## Tours of derivations -/

/-- Every step takes up a word at least, for a production has steps and so its parts are not empty. -/
theorem Grammar.Expands.add_length_le {g : Grammar} (hg : g.Coherent) {words : List String}
    {steps : List Step} {pos stop : Nat} {parts : List Tree}
    (h : g.Expands words steps pos stop parts) : pos + steps.length ≤ stop := by
  induction h with
  | nil pos => exact Nat.le_refl pos
  | word _ _ _ _ ih =>
    rw [List.length_cons]
    omega
  | head _ production _ _ _ _ ihInside ih =>
    have hsteps := List.length_pos_of_ne_nil (hg.steps_ne_nil production)
    rw [List.length_cons]
    omega

/-- What a node of a production derives is not empty. -/
theorem Grammar.Expands.lt {g : Grammar} (hg : g.Coherent) {words : List String} {rule : Nat}
    {p : Production} (hp : g.productions[rule]? = some p) {start stop : Nat} {parts : List Tree}
    (h : g.Expands words p.steps start stop parts) : start < stop := by
  have hsteps := List.length_pos_of_ne_nil (hg.steps_ne_nil hp)
  have hle := h.add_length_le hg
  omega

namespace AssocList

variable {g : Grammar} {spelling : List String} {closing : Bool}

/-- The words of a node are those between its start and its stop. -/
theorem wordsText_eq {start stop : Nat} (h : start < stop) :
    Cursor.wordsText spelling start (stop - 1)
      = " ".intercalate ((spelling.take stop).drop start) := by
  have hstop : stop - 1 + 1 = stop := by omega
  have hupTo : Text.upTo (stop : Int) spelling = spelling.take stop := by
    rw [Text.upTo, if_neg (by omega), Int.toNat_natCast]
  rw [Cursor.wordsText, hstop, Text.slice, hupTo]

/-- A cursor at a node collects the entries of the node, if below it collects those of the parts. -/
theorem visit_of_at {c : Cursor} {label : String} {rule start stop : Nat} {parts : List Tree}
    {p : Production} (hc : c.At g label rule start stop parts) (hlt : start < stop)
    (hp : g.productions[rule]? = some p)
    (htour : ∀ inner, Cursor.Ahead g inner p.steps parts → p.steps.find? (·.nonterminal) ≠ none →
      ∃ last, Tour g spelling closing inner
        (Tree.entriesOf g spelling closing p.steps parts) last) :
    Visit g spelling closing c ((Tree.node rule start stop parts).entries g spelling closing label)
      c := by
  obtain ⟨rest, hdown⟩ := hc.down
  have hinner : Cursor.Ahead g (⟨.node rule start stop parts, 1⟩ :: rest) p.steps parts :=
    Cursor.ahead_first hp parts rest
  rw [Grammar.stepsAt_eq hp] at hdown
  rw [Tree.entries, Grammar.stepsAt_eq hp]
  -- the value of a slot is given a name, since its two cases are told apart below
  generalize hvalue : Tree.slotValue label p.steps ((spelling.take stop).drop start) = value
  -- a slot has capitals only, and any other name is gone into
  rw [Tree.slotValue, ← wordsText_eq hlt] at hvalue
  cases hlower : label.toList.any Text.isLower with
  -- a slot: at most its first head is looked at, and nothing inside it is collected
  | false =>
    rw [if_neg Bool.false_ne_true]
    cases hfind : p.steps.find? (·.nonterminal) with
    | none =>
      rw [hfind] at hdown hvalue
      subst hvalue
      exact .words hc.focus hlower (.inr hdown) hc.span
    | some step =>
      rw [hfind] at hdown hvalue
      by_cases hcaret : label.toList.head? = some '^'
      · simp only [hcaret, if_true] at hvalue
        subst hvalue
        exact .words hc.focus hlower (.inl hcaret) hc.span
      · simp only [hcaret, if_false] at hvalue
        subst hvalue
        have hfocus := hinner.focus_eq
        rw [hfind] at hfocus
        exact .name hc.focus hlower hcaret hdown hfocus (Cursor.up_of_beside hc.grounded hdown .refl)
  -- a phrase: the cursor goes down, collects what is there, and one move up brings it back
  | true =>
    rw [if_pos rfl]
    cases hfind : p.steps.find? (·.nonterminal) with
    | none =>
      rw [hfind] at hdown
      rw [Tree.entriesOf_eq_nil hfind]
      exact .leaf hc.focus hlower hdown
    | some step =>
      rw [hfind] at hdown
      obtain ⟨last, hlast⟩ := htour _ hinner (by simp [hfind])
      have hbeside := hlast.beside (Cursor.Grounded.of_down hdown)
      exact .inside hc.focus hlower hdown hlast (Cursor.up_of_beside hc.grounded hdown hbeside)

/-- A cursor before the parts of a derivation collects their entries. -/
theorem exists_tour_of_expands (hg : g.Coherent) {words : List String} {steps : List Step}
    {pos stop : Nat} {parts : List Tree} (h : g.Expands words steps pos stop parts) {c : Cursor}
    (hc : c.Ahead g steps parts) (hsome : steps.find? (·.nonterminal) ≠ none) :
    ∃ last, Tour g spelling closing c (Tree.entriesOf g spelling closing steps parts) last := by
  -- the steps ahead get fewer while the cursor moves on along one node
  induction h generalizing c with
  | nil pos => exact absurd rfl hsome
  | word terminal _ _ _ ih =>
    rw [Tree.entriesOf_terminal terminal]
    apply ih (hc.skip terminal)
    rw [List.find?_cons_of_neg (by simp [terminal])] at hsome
    exact hsome
  | @head step steps pos mid stop rule p inner parts nonterminal production _ _ inside rest
      ihInside ih =>
    rw [Tree.entriesOf_nonterminal nonterminal]
    have hat := hc.toAt nonterminal production
    have hvisit := visit_of_at hat (inside.lt hg production) production fun c' hc' => ihInside hc'
    obtain ⟨beside, hnext, hbeside⟩ := hc.next_eq nonterminal
    cases hfind : steps.find? (·.nonterminal) with
    | none =>
      rw [hfind] at hnext
      rw [Tree.entriesOf_eq_nil hfind, List.append_nil]
      exact ⟨c, .last hvisit hnext⟩
    | some next =>
      rw [hfind] at hnext
      obtain ⟨last, hlast⟩ := ih hbeside (by simp [hfind])
      exact ⟨last, .next hvisit hnext hlast⟩

/-- From the root of a derivation, a cursor collects its entries and comes back. -/
theorem tour_of_mem_derivations (hg : g.Coherent) {words : List String} {rule : Nat} {tree : Tree}
    {p : Production} (h : tree ∈ g.derivations words rule) (hp : g.productions[rule]? = some p) :
    Tour g spelling closing (.root tree) (tree.entries g spelling closing p.head) (.root tree) := by
  obtain ⟨parts, rfl, q, hq, _, hexpands⟩ := h
  rw [hp, Option.some.injEq] at hq
  subst hq
  -- there is nothing beside the root
  apply Tour.last _ rfl
  apply visit_of_at (Cursor.at_root hp parts) (hexpands.lt hg hp) hp
  intro inner hinner hsome
  exact exists_tour_of_expands hg hexpands hinner hsome

end AssocList

end Utterance
