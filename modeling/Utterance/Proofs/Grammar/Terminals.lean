import Utterance.Proofs.Grammar.Retraction

/-!
# Words of a grammar

A word of a grammar is a step of one of its rules. Teaching an expansion adds no words but those that
the expansion stands for, and taking rules away or switching them adds none.
-/

namespace Utterance.Grammar

variable {g : Grammar} {head line t : String}

/-- The terminals of a grammar are the words among the steps of its productions. -/
theorem mem_terminals_iff :
    t ∈ g.terminals ↔ ∃ p ∈ g.productions.toList, ⟨t, false⟩ ∈ p.steps := by
  simp only [terminals, List.mem_flatMap, List.mem_map, List.mem_filter, Bool.not_eq_true']
  constructor
  · rintro ⟨p, hp, ⟨symbol, nonterminal⟩, ⟨hstep, hterminal⟩, rfl⟩
    cases hterminal
    exact ⟨p, hp, hstep⟩
  · rintro ⟨p, hp, hstep⟩
    exact ⟨p, hp, _, ⟨hstep, rfl⟩, rfl⟩

/-- Words of rules are not empty. -/
theorem Tidy.ne_empty_of_mem_terminals (h : g.Tidy) (ht : t ∈ g.terminals) : t ≠ "" := by
  obtain ⟨p, hp, hstep⟩ := mem_terminals_iff.1 ht
  rintro rfl
  exact (h.isWord p hp _ hstep).1 rfl

/-- A word of a rule is one of the tokens that the rule was read from. -/
theorem Forms.mem_of_mem_steps {tokens : List String} {steps : List Step} (h : Forms head tokens steps)
    (ht : ⟨t, false⟩ ∈ steps) : t ∈ tokens := by
  obtain ⟨hwritten, _, _⟩ := h
  clear * - hwritten ht
  induction hwritten with
  | nil => cases ht
  | @cons token step tokens steps hfirst _ ih =>
    rcases List.mem_cons.1 ht with rfl | ht
    · cases hfirst
      exact List.mem_cons_self ..
    · exact List.mem_cons_of_mem _ (ih ht)

/-- Whether a word is one of those that a line stands for, with some bound on dictated words. -/
def Brings (line t : String) : Prop :=
  ∃ limit, ∃ plain ∈ Sugar.variants limit line.toList, t ∈ Text.words (String.ofList plain)

/-- Teaching an expansion adds no words but those that it stands for. An expansion that does not
nest adds nothing, and any other adds what its plain lines make. -/
theorem mem_terminals_of_extend (h : g.Tidy) (ht : t ∈ (g.extend head line).grammar.terminals) :
    t ∈ g.terminals ∨ Brings line t := by
  rw [grammar_extend] at ht
  cases hnested : Sugar.isNested line.toList with
  | false =>
    have hsame : (g.expand head line ("extend " ++ head)).grammar = g := by
      simp [expand, hnested]
    rw [hsame] at ht
    exact .inl ht
  | true =>
    obtain ⟨added, hadds⟩ := exists_adds_expand h head hnested ("extend " ++ head)
    obtain ⟨p, hp, hstep⟩ := mem_terminals_iff.1 ht
    rw [hadds.productions] at hp
    rcases List.mem_append.1 hp with hp | hp
    · exact .inl (mem_terminals_iff.2 ⟨p, hp, hstep⟩)
    · obtain ⟨_, _, plain, hplain, hforms⟩ := hadds.formed p hp
      obtain ⟨cs, hcs, rfl⟩ := List.mem_map.1 hplain
      exact .inr ⟨_, cs, hcs, hforms.mem_of_mem_steps hstep⟩

/-- Whatever of the productions stays brings no new words. -/
theorem mem_terminals_of_renumber_filter {g' : Grammar} {keep : Production → Bool}
    (h : g'.productions.toList = renumber (g.productions.toList.filter keep))
    (ht : t ∈ g'.terminals) : t ∈ g.terminals := by
  obtain ⟨p, hp, hstep⟩ := mem_terminals_iff.1 ht
  rw [h] at hp
  obtain ⟨q, hq, hsame⟩ := exists_of_mem_renumberFrom hp
  rw [← hsame] at hstep
  exact mem_terminals_iff.2 ⟨q, (List.mem_filter.1 hq).1, hstep⟩

/-- Enabling a head brings no new words. -/
theorem mem_terminals_of_enable {head : Option String} (ht : t ∈ (g.enable head).1.terminals) :
    t ∈ g.terminals := by
  obtain ⟨p, hp, hstep⟩ := mem_terminals_iff.1 ht
  simp only [enable, setStatus, Array.toList_map, List.mem_map] at hp
  obtain ⟨q, hq, rfl⟩ := hp
  refine mem_terminals_iff.2 ⟨q, hq, ?_⟩
  split at hstep <;> exact hstep

end Utterance.Grammar
