import Utterance.Proofs.Cursor.Rendering
import Utterance.Proofs.Grammar.Places

/-!
# Views of an analysis under another grammar

What is shown of an analysis is looked up in the grammar as it is then, by the positions of the
productions in the selected tree. Two grammars that have the same heads and steps at these positions
show the same. So what is shown after a parse stays the same whatever is taught and whatever statuses
are set, and also if productions are retracted, as long as none of the tree is among them and none that
stands before one of the tree. A retraction before it makes the tree name other productions, or none.
-/

namespace Utterance

variable {g g' : Grammar} {t k : Tree} {c c' : Cursor}

/-! ## Rules of a tree -/

namespace Tree

mutual

/-- The positions of the productions in a tree. -/
def rules : Tree → List Nat
  | .word => []
  | .node rule _ _ parts => rule :: rulesOf parts

/-- The positions of the productions in several trees. -/
def rulesOf : List Tree → List Nat
  | [] => []
  | t :: rest => rules t ++ rulesOf rest

end

/-- What a tree uses is used by every list that it is in. -/
theorem rules_subset_rulesOf {ts : List Tree} (h : k ∈ ts) : ∀ rule ∈ k.rules, rule ∈ rulesOf ts := by
  induction ts with
  | nil => cases h
  | cons t ts ih =>
    intro rule hrule
    rw [rulesOf]
    rcases List.mem_cons.1 h with rfl | h
    · exact List.mem_append_left _ hrule
    · exact List.mem_append_right _ (ih h rule hrule)

/-- Two grammars have the same heads and steps for all productions in a tree. -/
def SameRules (g g' : Grammar) (t : Tree) : Prop := ∀ rule ∈ t.rules, g'.ruleAt? rule = g.ruleAt? rule

/-- Two grammars that agree on a tree agree on its parts. -/
theorem SameRules.of_mem_parts (h : t.SameRules g g') (hk : k ∈ t.parts) : k.SameRules g g' := by
  cases t with
  | word => cases hk
  | node rule start stop parts =>
    intro rule' hrule
    apply h
    rw [rules]
    exact List.mem_cons_of_mem _ (rules_subset_rulesOf hk rule' hrule)

/-- What is read off the head and the steps of a node's production is the same. -/
theorem SameRules.map_production (h : t.SameRules g g') {α : Type} (f : String × List Step → α) :
    (t.production g').map (fun p => f (p.head, p.steps))
      = (t.production g).map fun p => f (p.head, p.steps) := by
  cases t with
  | word => rfl
  | node rule start stop parts =>
    have hrule := h rule (by rw [rules]; exact List.mem_cons_self ..)
    rw [Grammar.ruleAt?, Grammar.ruleAt?] at hrule
    unfold production
    cases hp : g.productions[rule]? with
    -- the rule of the node may be missing, but then it is missing in both grammars
    | none =>
      rw [hp, Option.map_none, Option.map_eq_none_iff] at hrule
      simp only [hrule, hp]
    | some p =>
      rw [hp, Option.map_some, Option.map_eq_some_iff] at hrule
      obtain ⟨q, hq, hshape⟩ := hrule
      simp only [hq, hp, Except.map, hshape]

/-- Of a tree with the same rules in two grammars, both show the same names. -/
theorem SameRules.labels (h : t.SameRules g g') : t.labels g' = t.labels g := by
  unfold Tree.labels
  exact h.map_production fun shape => (shape.2.filter (·.nonterminal)).map (·.symbol)

/-- Both show the same parts of it. -/
theorem SameRules.subtrees (h : t.SameRules g g') : t.subtrees g' = t.subtrees g := by
  unfold Tree.subtrees
  exact h.map_production fun shape =>
    ((shape.2.zip t.parts).filter fun x => x.1.nonterminal).map (·.2)

end Tree

/-! ## Looking and moving -/

namespace Cursor

/-- Every cursor that is moved down and on comes to an end. -/
theorem walk_induction (g : Grammar) {motive : Cursor → Prop}
    (step : ∀ c, (∀ inner, down g c = .ok (some inner) → motive inner) →
      (∀ beside, next g c = .ok (some beside) → motive beside) → motive c) (c : Cursor) : motive c :=
  step c (fun inner _ => walk_induction g step inner) fun beside _ => walk_induction g step beside
termination_by extent g c
decreasing_by
  · exact extent_down (by assumption)
  · exact extent_next (by assumption)

/-- Two grammars have the same heads and steps in the node where a cursor is. -/
def SameRules (g g' : Grammar) : Cursor → Prop
  | [] => True
  | f :: _ => f.node.SameRules g g'

namespace SameRules

theorem label? {n : Nat} (h : t.SameRules g g') : Cursor.label? g' t n = Cursor.label? g t n := by
  rw [Cursor.label?, Cursor.label?, h.labels]

theorem part? {n : Nat} (h : t.SameRules g g') : Cursor.part? g' t n = Cursor.part? g t n := by
  rw [Cursor.part?, Cursor.part?, h.subtrees]

/-- What is looked at is named alike in both grammars. -/
theorem focus_eq (h : c.SameRules g g') : focus g' c = focus g c := by
  cases c with
  | nil => rfl
  | cons f rest =>
    have hnode : f.node.SameRules g g' := h
    rw [focus, focus, label? hnode]
    split
    · exact hnode.map_production fun shape => some shape.1
    · rfl

/-- It covers the same words in both. -/
theorem span_eq (h : c.SameRules g g') : span g' c = span g c := by
  cases c with
  | nil => rfl
  | cons f rest => rw [span, span, part? h]

/-- Moving on leads to the same place. -/
theorem next_eq (h : c.SameRules g g') : next g' c = next g c := by
  cases c with
  | nil => rfl
  | cons f rest => rw [Cursor.next, Cursor.next, label? h]

/-- So does moving down. A move up asks no grammar. -/
theorem down_eq (h : c.SameRules g g') : down g' c = down g c := by
  cases c with
  | nil => rfl
  | cons f rest =>
    have hnode : f.node.SameRules g g' := h
    rw [Cursor.down, Cursor.down, label? hnode, part? hnode]
    split
    · rfl
    -- moving down names the inner place by the part there, which has the same rules as well
    · split
      · rfl
      · rfl
      · rfl
      · rename_i part _ hpart
        rw [label? (hnode.of_mem_parts (mem_parts_of_part? hpart))]

/-- After a move on both grammars still agree on what the cursor can come to. -/
theorem next (h : c.SameRules g g') (hnext : Cursor.next g c = .ok (some c')) : c'.SameRules g g' := by
  obtain ⟨node, mark, rest, rfl, rfl⟩ := next_eq_some hnext
  exact h

/-- So they do after a move down, since a part uses no rule that the whole does not. -/
theorem down (h : c.SameRules g g') (hdown : Cursor.down g c = .ok (some c')) : c'.SameRules g g' := by
  cases c with
  | nil => cases hdown
  | cons f rest =>
    have hnode : f.node.SameRules g g' := h
    simp only [Cursor.down] at hdown
    split at hdown
    · split at hdown <;> cases hdown
      exact hnode
    · split at hdown
      · cases hdown
      · cases hdown
      · cases hdown
      · rename_i part _ hpart
        split at hdown <;> cases hdown
        exact hnode.of_mem_parts (mem_parts_of_part? hpart)

/-! ## Walks -/

/-- So the search for a name finds the same. The search goes down and on, and the induction follows
it. -/
theorem findMajor_eq (h : c.SameRules g g') : findMajor g' c = findMajor g c := by
  induction c using walk_induction g with
  | step c ihDown ihNext =>
    -- both searches go down and on in the same way, since the tree has rules of both grammars only
    have hinside : majorInside g' c = majorInside g c := by
      rw [majorInside, majorInside, h.down_eq]
      split
      · rfl
      · rename_i inner hdown
        exact ihDown inner hdown (h.down hdown)
      · rfl
    have hafter : majorAfter g' c = majorAfter g c := by
      rw [majorAfter, majorAfter, h.next_eq]
      split
      · rfl
      · rename_i beside hnext
        exact ihNext beside hnext (h.next hnext)
      · rfl
    rw [findMajor_def, findMajor_def, h.focus_eq, hinside, hafter]

/-- The rows of a rendering are the same. The induction is along the walk: down into a node, and on
to the nodes beside it. -/
theorem lines_eq (h : c.SameRules g g') (spelling : List String) (indent first last : Nat) :
    lines g' spelling indent first last c = lines g spelling indent first last c := by
  induction c using walk_induction g generalizing indent first last with
  | step c ihDown ihNext =>
    -- the lines of a node are those inside it and those after it, and either cursor has the same
    -- rules
    have hinside : ∀ a b, linesInside g' spelling indent a b c = linesInside g spelling indent a b c := by
      intro a b
      rw [linesInside, linesInside, h.down_eq]
      split
      · rfl
      · rename_i inner hdown
        exact ihDown inner hdown (h.down hdown) (indent + 1) a b
      · rfl
    have hafter : ∀ b, linesAfter g' spelling indent b last c = linesAfter g spelling indent b last c := by
      intro b
      rw [linesAfter, linesAfter, h.next_eq]
      split
      · rfl
      · rename_i beside hnext
        exact ihNext beside hnext (h.next hnext) indent (b + 1) last
      · rfl
    simp only [lines_def, h.focus_eq, h.span_eq, hinside, hafter]

/-- And so are the pieces of an association list, by the same induction. -/
theorem nodePieces_eq (h : c.SameRules g g') (spelling : List String) (closing : Bool) :
    AssocList.nodePieces g' spelling closing c = AssocList.nodePieces g spelling closing c := by
  induction c using walk_induction g with
  | step c ihDown ihNext =>
    have hinside : ∀ label, AssocList.insidePieces g' spelling closing label c
        = AssocList.insidePieces g spelling closing label c := by
      intro label
      rw [AssocList.insidePieces, AssocList.insidePieces, h.down_eq, h.span_eq]
      -- a head with a caret shows its words and is not gone into
      cases label.toList.head? == some '^' <;> rcases hdown : Cursor.down g c with e | _ | inner
      case false.ok.some | true.ok.some =>
        simp [(h.down hdown).focus_eq, ihDown inner hdown (h.down hdown)]
      all_goals rfl
    rw [AssocList.nodePieces_def, AssocList.nodePieces_def g]
    simp only [h.focus_eq, hinside, h.next_eq]
    rcases hnext : Cursor.next g c with e | _ | beside
    · rfl
    · rfl
    · simp only [ihNext beside hnext (h.next hnext)]

end SameRules

end Cursor

/-! ## Views -/

namespace Analysis

variable {a : Analysis} {s : ChartState} {words : List String}

/-- Two analyses with their grammars show the same. -/
structure SameViews (g g' : Grammar) (a a' : Analysis) : Prop where
  root : a'.root g' = a.root g
  topCategory : a'.topCategory g' = a.topCategory g
  treeText : a'.treeText g' = a.treeText g
  assocList : ∀ closing, a'.assocList g' closing = a.assocList g closing

/-- What is shown depends on the rules of the selected tree only, and not on where the cursor is. -/
theorem sameViews_of_sameRules (hs : a.candidate? none = some s)
    (h : (a.chart.tree s).SameRules g g') (cursor : Cursor) :
    SameViews g g' a { a with cursor } := by
  have hroot : (Cursor.root (a.chart.tree s)).SameRules g g' := h
  have htop : a.top none = ({ a with cursor := .root (a.chart.tree s) }, true) := by
    rw [top, hs]
  -- every view starts at the root of the selected tree, from wherever the cursor is
  have htop' : Analysis.top { a with cursor } none
      = ({ a with cursor := .root (a.chart.tree s) }, true) := htop
  constructor
  · simp only [Analysis.root, htop, htop', hroot.focus_eq]
  · simp only [Analysis.topCategory, htop, htop', hroot.findMajor_eq]
  · simp only [Analysis.treeText, htop, htop', hroot.lines_eq]
  · intro closing
    simp only [Analysis.assocList, htop, htop', AssocList.build, hroot.nodePieces_eq]

end Analysis

/-! ## After a parse -/

/-- The productions of a derivation are there: each node of it was made by one. Words are made by
none. -/
theorem Grammar.Expands.exists_ruleAt? {words : List String} {steps : List Step} {pos stop : Nat}
    {parts : List Tree} (h : g.Expands words steps pos stop parts) :
    ∀ rule ∈ Tree.rulesOf parts, ∃ shape, g.ruleAt? rule = some shape := by
  induction h with
  | nil pos =>
    rw [Tree.rulesOf]
    exact fun _ h => absurd h List.not_mem_nil
  | word _ _ _ _ ih =>
    rw [Tree.rulesOf, Tree.rules]
    exact ih
  | @head _ _ _ _ _ rule p _ _ _ production _ _ _ _ ihInside ih =>
    rw [Tree.rulesOf, Tree.rules]
    intro rule' hrule
    rcases List.mem_append.1 hrule with hrule | hrule
    · rcases List.mem_cons.1 hrule with rfl | hrule
      · exact ⟨(p.head, p.steps), by rw [Grammar.ruleAt?, production, Option.map_some]⟩
      · exact ihInside rule' hrule
    · exact ih rule' hrule

/-- A derivation has the same rules after calls that spare its productions. -/
theorem Grammar.sameRules_runAll (hg : g.Coherent) {words : List String} {rule : Nat}
    (ht : t ∈ g.derivations words rule) {calls : List Grammar.Call}
    (hspares : SparesAll t.rules g calls) : t.SameRules g (g.runAll calls) := by
  obtain ⟨p, parts, hp, rfl, hexpands⟩ := Grammar.exists_of_mem_derivations ht
  intro rule' hrule
  -- the rule of the root is there since the tree is a derivation, and so are those of its nodes
  have hsome : ∃ shape, g.ruleAt? rule' = some shape := by
    rw [Tree.rules] at hrule
    rcases List.mem_cons.1 hrule with rfl | hinner
    · exact ⟨(p.head, p.steps), by rw [Grammar.ruleAt?, hp, Option.map_some]⟩
    · exact hexpands.exists_ruleAt? rule' hinner
  obtain ⟨shape, hshape⟩ := hsome
  rw [hshape]
  exact Grammar.ruleAt?_runAll hg hspares hrule hshape

namespace Analysis

variable {a : Analysis} {s : ChartState} {words : List String}

theorem root_of_candidate? (hs : a.candidate? none = some s) (g : Grammar) :
    (a.root g).result = (Cursor.root (a.chart.tree s)).focus g := by
  simp only [Analysis.root, top, hs]

/-- The head of the selected production is shown as the root. -/
theorem Selected.root_eq {p : Production} (hs : Selected g words a s)
    (hp : g.productions[s.item.rule]? = some p) : (a.root g).result = .ok (some p.head) := by
  obtain ⟨q, parts, hq, htree, _⟩ := Grammar.exists_of_mem_derivations hs.derives
  obtain rfl := Option.some.inj (hp.symm.trans hq)
  rw [root_of_candidate? hs.candidate, htree]
  exact (Cursor.at_root hp parts).focus

/-- After a parse that found candidates, everything is shown, and it is shown in the same way after any
calls that change the grammar but leave the heads and the steps of the productions of the selected
derivation at their places, wherever the cursor is. Teaching, loading and statuses leave them there, and
so does a retraction that takes away none of them and no production before one of them. -/
theorem views_persist {g : Grammar} (hg : g.Built) (status : Nat → Status) (sentence : Sentence)
    (conf : Confidence) (calls : List Grammar.Call)
    (hparses : (parse (g.withStatuses status) sentence conf).state.candidates ≠ []) :
    let grammar := g.withStatuses status
    let a := (parse grammar sentence conf).state
    let later := grammar.runAll calls
    ∃ s, a.candidate? none = some s
      ∧ a.chart.tree s ∈ grammar.derivations sentence.toWords s.item.rule
      ∧ (∃ (head : String) (category : Option String) (text : String) (lists : Bool → AssocList),
        (a.root grammar).result = .ok (some head)
        ∧ (a.topCategory grammar).result = .ok category ∧ (a.treeText grammar).result = .ok text
        ∧ ∀ closing, (a.assocList grammar closing).result = .ok (lists closing))
      ∧ ((a.chart.tree s).SameRules grammar later →
        ∀ cursor, SameViews grammar later a { a with cursor })
      ∧ (Grammar.SparesAll (a.chart.tree s).rules grammar calls →
        (a.chart.tree s).SameRules grammar later) := by
  intro grammar a later
  have hcoherent : grammar.Coherent := hg.coherent.withStatuses status
  obtain ⟨s, hs⟩ := exists_selected hcoherent hparses
  obtain ⟨p, _, hp, houtlined⟩ := Grammar.exists_outlined_of_mem_derivations hs.derives
  -- all four views are read off the selected tree, so they are there to begin with
  exact ⟨s, hs.candidate, hs.derives,
    ⟨_, _, _, _, hs.root_eq hp, hs.topCategory_eq hp houtlined.outline,
      hs.treeText_eq hcoherent hp houtlined.outline,
      assocList_eq_ofEntries hcoherent hs.candidate hs.derives hp⟩,
    sameViews_of_sameRules hs.candidate, Grammar.sameRules_runAll hcoherent hs.derives⟩

/-- A new production is taught and retracted again, and everything is disabled; an outing is shown as
before. -/
theorem views_persist_outing :
    let calls : List Grammar.Call := [.extend "BYE" "bye", .disable none, .retract "BYE" "bye"]
    let a := (parse topOutings (.text "Go home") .absent).state
    a.candidates ≠ []
      ∧ Grammar.SparesAll outing.rules topOutings calls
      ∧ SameViews topOutings (topOutings.runAll calls) a a := by
  intro calls a
  have hplain : Grammar.Plain "bye" :=
    ⟨Text.isWord_of_all (by decide) (by decide), by decide, by decide, by decide, by decide⟩
  -- the two rules of the outing are the first of the grammar, and none of them is a farewell
  have hplaces : ∀ rule ∈ outing.rules, ∀ i ≤ rule,
      ∃ shape, topOutings.ruleAt? i = some shape ∧ Text.lower shape.1 ≠ Text.lower "BYE" := by
    intro rule hrule i hi
    have hle : rule ≤ 1 := by
      simp only [outing, Tree.rules, Tree.rulesOf, List.append_nil, List.mem_cons, List.nil_append,
        List.not_mem_nil, or_false] at hrule
      omega
    rw [Grammar.ruleAt?, productions_topOutings]
    obtain rfl | rfl : i = 0 ∨ i = 1 := by omega
    · exact ⟨_, rfl, by decide⟩
    · exact ⟨_, rfl, by decide⟩
  -- what is retracted has another head than the two productions of the outing
  have hspared : (Grammar.Call.retract "BYE" "bye").Spares
      (topOutings.runAll [.extend "BYE" "bye", .disable none]) outing.rules := by
    intro rule hrule i hi p hp
    obtain ⟨shape, hshape, hhead⟩ := hplaces rule hrule i hi
    have hkept : (topOutings.runAll [.extend "BYE" "bye", .disable none]).ruleAt? i = some shape := by
      show (Grammar.setStatus (topOutings.extend "BYE" "bye").grammar none .active).1.ruleAt? i = _
      rw [Grammar.ruleAt?_setStatus, Grammar.grammar_extend]
      exact Grammar.ruleAt?_expand hshape "BYE" "bye" _
    rw [Grammar.ruleAt?, hp, Option.map_some, Option.some.injEq] at hkept
    rw [hplain.spares_eq, bne_iff_ne]
    intro hkey
    rw [← hkept] at hhead
    exact hhead (Grammar.exists_of_key_eq_wordKey hkey).1
  have hspares : Grammar.SparesAll outing.rules topOutings calls := ⟨trivial, trivial, hspared, trivial⟩
  obtain ⟨s, hcandidate, hderives, _, hsame, hkept⟩ :=
    views_persist built_outings (fun _ => .top) (.text "Go home") .absent calls candidates_topOutings
  rw [toWords_outing] at hderives
  rw [(mem_derivations_topOutings.1 hderives).2] at hsame hkept
  exact ⟨candidates_topOutings, hspares, hsame (hkept hspares) a.cursor⟩

/-! ## A production that moves up -/

/-- A slot alone has one derivation. -/
theorem mem_derivations_home {rule : Nat} :
    t ∈ topOutings.derivations ["home"] rule ↔ rule = 1 ∧ t = .node 1 0 1 [.word] := by
  constructor
  · rintro ⟨parts, rfl, p, hp, _, hexpands⟩
    rcases production_topOutings.1 hp with ⟨rfl, rfl⟩ | ⟨rfl, rfl⟩
    -- the first rule wants the word `go`
    · obtain ⟨_, _, hsaid, haccepts, _⟩ := (Grammar.Expands.word_iff rfl).1 hexpands
      obtain rfl := Option.some.inj hsaid
      rcases haccepts with hwild | hsame
      · exact absurd hwild (by decide)
      · exact absurd hsame (by decide)
    · obtain ⟨_, _, rfl⟩ := (Grammar.Expands.single_iff rfl).1 hexpands
      exact ⟨rfl, rfl⟩
  · rintro ⟨rfl, rfl⟩
    exact ⟨_, rfl, _, production_topOutings.2 (.inr ⟨rfl, rfl⟩), rfl,
      .word rfl rfl (.inl (by decide)) (.nil 1)⟩

theorem toWords_home : (Sentence.text "home").toWords = ["home"] := by decide +kernel

/-- Retracting the first production moves the second one up, and the tree that was parsed with the
second one has no production any more. -/
theorem root_lost_after_retract :
    let a := (parse topOutings (.text "home") .absent).state
    let later := topOutings.runAll [.retract "!go" "go <PLACE>"]
    a.candidates ≠ [] ∧ (a.root topOutings).result = .ok (some "PLACE")
      ∧ later.productions.toList = [⟨0, "PLACE", [⟨"#", false⟩], .top⟩]
      ∧ (a.root later).result = .error .outOfRange := by
  intro a later
  have hcoherent : topOutings.Coherent := built_outings.coherent.withStatuses _
  have hslot := @production_topOutings 1 ⟨1, "PLACE", [⟨"#", false⟩], .top⟩ |>.2 (.inr ⟨rfl, rfl⟩)
  have hderives : .node 1 0 1 [.word] ∈ topOutings.derivations (Sentence.text "home").toWords 1 := by
    rw [toWords_home]
    exact mem_derivations_home.2 ⟨rfl, rfl⟩
  have hcandidates : a.candidates ≠ [] :=
    candidates_ne_nil hcoherent rfl (by rw [toWords_home]; exact List.cons_ne_nil _ _) hslot rfl hderives
  obtain ⟨s, hs⟩ := exists_selected hcoherent hcandidates
  rw [toWords_home] at hs
  obtain ⟨hrule, htree⟩ := mem_derivations_home.1 hs.derives
  have hdenoted : topOutings.denoted "!go" "go <PLACE>"
      = [Grammar.keyOf "!go" [⟨"go", false⟩, ⟨"PLACE", true⟩]] := by
    rw [Grammar.denoted, if_pos (by decide), Sugar.variants_eq_singleton (by decide)]
    decide
  have hlater : later.productions.toList = [⟨0, "PLACE", [⟨"#", false⟩], .top⟩] := by
    show (topOutings.retract "!go" "go <PLACE>").grammar.productions.toList = _
    rw [Grammar.productions_retract hcoherent, Grammar.filter_spares, hdenoted, productions_topOutings]
    decide
  refine ⟨hcandidates, hs.root_eq (by rw [hrule]; exact hslot), hlater, ?_⟩
  -- one production is left, and it has moved to the first place
  have hnone : later.productions[1]? = none := by
    rw [← Array.getElem?_toList, hlater]
    rfl
  have hroot := root_of_candidate? hs.candidate later
  rw [htree] at hroot
  rw [show (a.root later).result = _ from hroot]
  simp only [Cursor.root, Cursor.focus, Tree.production, hnone]
  rfl

end Analysis

end Utterance
