import Utterance.Proofs.Grammar.Alerts

/-!
# Places of productions

What is read back from a chart names productions by their positions, so it matters which calls leave a
production where it is. Everything that is taught comes at the end, and statuses move nothing. Only a
retraction moves productions: it takes away some of them, and those that come after one of these move
up. So a production stays where it is as long as no retraction takes it away or one before it.
-/

namespace Utterance

/-- An element is where it was if nothing up to it is filtered out. What is filtered out behind it
does not matter. -/
theorem getElem?_filter_of_forall {α : Type} {keep : α → Bool} {xs : List α} {n : Nat}
    (h : ∀ i ≤ n, ∀ x, xs[i]? = some x → keep x = true) : (xs.filter keep)[n]? = xs[n]? := by
  induction xs generalizing n with
  | nil => rfl
  | cons x xs ih =>
    rw [List.filter_cons_of_pos (h 0 (Nat.zero_le n) x rfl)]
    cases n with
    | zero => rfl
    | succ n =>
      rw [List.getElem?_cons_succ, List.getElem?_cons_succ]
      exact ih fun i hi y hy => h (i + 1) (Nat.succ_le_succ hi) y hy

namespace Grammar

variable {g : Grammar} {rule : Nat} {shape : String × List Step} {rules : List Nat} {call : Call}

/-- Head and steps of the production at a position. -/
def ruleAt? (g : Grammar) (rule : Nat) : Option (String × List Step) :=
  g.productions[rule]?.map fun p => (p.head, p.steps)

/-- A rule at a place is the head and the steps of the production there. -/
theorem exists_of_ruleAt? (h : g.ruleAt? rule = some shape) :
    ∃ p, g.productions[rule]? = some p ∧ p.head = shape.1 ∧ p.steps = shape.2 := by
  obtain ⟨p, hp, rfl⟩ := Option.map_eq_some_iff.1 h
  exact ⟨p, hp, rfl, rfl⟩

/-! ## Teaching and statuses -/

/-- A production at the end leaves the rules at the other places. -/
theorem ruleAt?_push (h : g.ruleAt? rule = some shape) (head : String) (steps : List Step) :
    ((g.remember head steps).push head steps .active).ruleAt? rule = some shape := by
  obtain ⟨p, hp, hhead, hsteps⟩ := exists_of_ruleAt? h
  obtain ⟨hlt, rfl⟩ := Array.getElem?_eq_some_iff.1 hp
  have hkept : ((g.remember head steps).push head steps .active).productions[rule]?
      = some g.productions[rule] := by
    simp only [push, remember_productions]
    exact Array.getElem?_push_lt hlt
  rw [ruleAt?, hkept, Option.map_some, hhead, hsteps]

/-- What is taught comes at the end. -/
theorem ruleAt?_expand (h : g.ruleAt? rule = some shape) (head line whence : String) :
    (g.expand head line whence).grammar.ruleAt? rule = some shape :=
  expand_preserves (P := fun g' => g'.ruleAt? rule = some shape)
    (fun _ _ steps hg _ _ _ => ruleAt?_push hg head steps) h line whence

/-- A status changes no rule. -/
theorem ruleAt?_setStatus (g : Grammar) (head : Option String) (status : Status) (rule : Nat) :
    (g.setStatus head status).1.ruleAt? rule = g.ruleAt? rule := by
  simp only [ruleAt?, setStatus, Array.getElem?_map, Option.map_map]
  congr 1
  funext p
  simp only [Function.comp_apply]
  split <;> rfl

/-! ## Retracting -/

/-- Numbering productions anew leaves them in their places. -/
theorem getElem?_renumberFrom (n rule : Nat) (ps : List Production) :
    (renumberFrom n ps)[rule]? = ps[rule]?.map fun p => { p with id := n + rule } := by
  induction ps generalizing n rule with
  | nil => rfl
  | cons p ps ih =>
    rw [renumberFrom]
    cases rule with
    | zero => rfl
    | succ rule =>
      rw [List.getElem?_cons_succ, List.getElem?_cons_succ, ih, Nat.add_right_comm]
      rfl

/-- A production stays where it is if it is spared with all before it. -/
theorem ruleAt?_retract (hg : g.Coherent) {head expansion : String}
    (h : ∀ i ≤ rule, ∀ p, g.productions[i]? = some p → g.spares head expansion p = true) :
    (g.retract head expansion).grammar.ruleAt? rule = g.ruleAt? rule := by
  have hkept : (g.productions.toList.filter (g.spares head expansion))[rule]?
      = g.productions.toList[rule]? :=
    getElem?_filter_of_forall fun i hi p hp => h i hi p (by rwa [Array.getElem?_toList] at hp)
  rw [ruleAt?, ← Array.getElem?_toList, productions_retract hg, renumber, getElem?_renumberFrom, hkept,
    Array.getElem?_toList, Option.map_map]
  rfl

/-! ## Calls -/

/-- A call leaves the productions at some positions where they are: if it is a retraction, it takes away
none of them and none before them. -/
def Call.Spares (g : Grammar) (rules : List Nat) : Call → Prop
  | .retract head expansion =>
    ∀ rule ∈ rules, ∀ i ≤ rule, ∀ p, g.productions[i]? = some p → g.spares head expansion p = true
  | .clear => rules = []
  | _ => True

/-- All calls, each in the grammar that it is made in, leave the productions at some positions where they
are. -/
def SparesAll (rules : List Nat) : Grammar → List Call → Prop
  | _, [] => True
  | g, call :: calls => call.Spares g rules ∧ SparesAll rules (g.run call) calls

/-- A call keeps a grammar coherent. Each of them is one of the operations for which this is known. -/
theorem Coherent.run (h : g.Coherent) (call : Call) : (g.run call).Coherent := by
  cases call with
  | load irregulars view path =>
    refine load_preserves (fun _ head line whence hg => hg.expand head line whence) ?_ h irregulars
      view path
    exact fun _ _ hg => ⟨hg.id_eq, hg.steps_ne_nil, hg.byHead_eq⟩
  | expand head line whence => exact h.expand head line whence
  | extend head expansion => exact h.extend head expansion
  | retract head expansion => exact h.retract head expansion
  | clear => exact coherent_of_isEmpty rfl rfl
  | setStatus head status => exact h.setStatus head status
  | setStatusNumber head n =>
    rw [Grammar.run, setStatusNumber]
    split
    · exact h.setStatus head _
    · split <;> exact h
  | enable head => exact h.setStatus head .top
  | disable head => exact h.setStatus head .active

/-- A production that is spared stays where it is. Only a retraction can move one, and only if it
takes an earlier one away. -/
theorem ruleAt?_run (hg : g.Coherent) (hspares : call.Spares g rules) (hrule : rule ∈ rules)
    (h : g.ruleAt? rule = some shape) : (g.run call).ruleAt? rule = some shape := by
  cases call with
  | load irregulars view path =>
    refine load_preserves (P := fun g' => g'.ruleAt? rule = some shape) ?_ (fun _ _ hg => hg) h
      irregulars view path
    exact fun _ head line whence hg => ruleAt?_expand hg head line whence
  | expand head line whence => exact ruleAt?_expand h head line whence
  | extend head expansion =>
    rw [Grammar.run, grammar_extend]
    exact ruleAt?_expand h head expansion _
  | retract head expansion => exact (ruleAt?_retract hg (hspares rule hrule)).trans h
  -- clearing spares no rule at all
  | clear =>
    rw [show rules = [] from hspares] at hrule
    cases hrule
  | setStatus head status => exact (ruleAt?_setStatus g head status rule).trans h
  | setStatusNumber head n =>
    rw [Grammar.run, setStatusNumber]
    split
    · exact (ruleAt?_setStatus g head _ rule).trans h
    · split <;> exact h
  | enable head => exact (ruleAt?_setStatus g head .top rule).trans h
  | disable head => exact (ruleAt?_setStatus g head .active rule).trans h

/-- Productions that all calls spare stay where they are. -/
theorem ruleAt?_runAll (hg : g.Coherent) {calls : List Call} (hspares : SparesAll rules g calls)
    (hrule : rule ∈ rules) (h : g.ruleAt? rule = some shape) :
    (g.runAll calls).ruleAt? rule = some shape := by
  induction calls generalizing g with
  | nil => exact h
  | cons call calls ih =>
    obtain ⟨hcall, hcalls⟩ := hspares
    exact ih (hg.run call) hcalls (ruleAt?_run hg hcall hrule h)

end Grammar

end Utterance
