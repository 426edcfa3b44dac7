import Mathlib.Data.List.Forall2
import Utterance.Proofs.Grammar.Built
import Utterance.Proofs.Text.Words

/-!
# Symbols and keys of a grammar

Every line of a grammar is cut into words at its blanks before its steps are read. So no step of a
grammar that can be built has an empty symbol or one with a blank in it. And as a production is added
only together with its key, the keys are exactly those of the productions.
-/

namespace Utterance

/-! ## How steps are written -/

/-- A word is written as it is, a head between brackets. -/
inductive Step.WrittenAs : Step → String → Prop where
  | word {token : String} (opens : token.toList.head?.any Grammar.isOpening = false)
      (closes : token.toList.getLast?.any Grammar.isClosing = false) :
      WrittenAs ⟨token, false⟩ token
  | head {o c : Char} {name : String} (opens : Grammar.isOpening o = true)
      (closes : Grammar.isClosing c = true) (named : name.toList ≠ []) :
      WrittenAs ⟨name, true⟩ (String.ofList (o :: (name.toList ++ [c])))

namespace Grammar

/-- A token is read as the step that it writes. A bracket needs a name between its two ends, which
is why a token of two characters is a word. -/
theorem readStep_of_writtenAs {token : String} {step : Step} (h : step.WrittenAs token) :
    readStep token = .ok step := by
  cases h with
  | word opens closes => simp [readStep, opens, closes]
  | @head o c name opens closes named =>
    have hlength : 3 ≤ (o :: (name.toList ++ [c])).length := by
      have := List.length_pos_of_ne_nil named
      simp only [List.length_cons, List.length_append, List.length_nil]
      omega
    have hlast : (o :: (name.toList ++ [c])).getLast? = some c := by
      rw [← List.cons_append, List.getLast?_concat]
    simp only [readStep, String.toList_ofList, List.head?_cons, Option.any_some, opens, hlast,
      closes, hlength]
    simp

/-- A token that can be read writes the step. With brackets on both sides and something between them
it is a head, and without any bracket at its ends a word. -/
theorem writtenAs_of_readStep {token : String} {step : Step} (h : readStep token = .ok step) :
    step.WrittenAs token := by
  simp only [readStep] at h
  split at h
  · split at h
    · rename_i hboth
      simp only [Bool.and_eq_true, decide_eq_true_eq] at hboth
      obtain ⟨⟨hopens, hcloses⟩, hlength⟩ := hboth
      cases h
      -- the token is an opening bracket, a name that is not empty, and a closing bracket
      obtain ⟨o, rest, hcs⟩ := List.exists_cons_of_ne_nil
        (l := token.toList) (by intro hnil; simp [hnil] at hlength)
      have hrest : rest ≠ [] := by
        rintro rfl
        simp [hcs] at hlength
      obtain ⟨name, c, rfl⟩ : ∃ name c, rest = name ++ [c] :=
        ⟨_, _, (List.dropLast_append_getLast hrest).symm⟩
      have hlast : token.toList.getLast? = some c := by
        rw [hcs, ← List.cons_append, List.getLast?_concat]
      have hname : name ≠ [] := by
        rintro rfl
        simp [hcs] at hlength
      rw [hlast] at hcloses
      rw [hcs] at hopens
      have htoken : token = String.ofList (o :: ((String.ofList name).toList ++ [c])) := by
        rw [String.toList_ofList, ← hcs, String.ofList_toList]
      have hwritten : Step.WrittenAs ⟨String.ofList name, true⟩
          (String.ofList (o :: ((String.ofList name).toList ++ [c]))) :=
        .head (by simpa using hopens) (by simpa using hcloses) (by simpa using hname)
      rw [← htoken] at hwritten
      simpa [hcs] using hwritten
    · cases h
  -- a token with neither bracket is a word
  · rename_i hneither
    simp only [Bool.or_eq_true, not_or, Bool.not_eq_true] at hneither
    cases h
    exact .word hneither.1 hneither.2

theorem readStep_eq_ok_iff {token : String} {step : Step} :
    readStep token = .ok step ↔ step.WrittenAs token :=
  ⟨writtenAs_of_readStep, readStep_of_writtenAs⟩

/-- Tokens are read one by one as the steps that they write, and all of them have to be steps. -/
theorem mapM_readStep_eq_ok_iff {tokens : List String} {steps : List Step} :
    tokens.mapM readStep = .ok steps
      ↔ List.Forall₂ (fun token step => step.WrittenAs token) tokens steps := by
  induction tokens generalizing steps with
  | nil => cases steps <;> simp [pure, Except.pure]
  | cons token tokens ih =>
    rw [List.mapM_cons]
    cases hstep : readStep token with
    | error d =>
      have hnone : ∀ step : Step, ¬ step.WrittenAs token := by
        intro step hw
        simp [readStep_of_writtenAs hw] at hstep
      cases steps <;> simp [bind, Except.bind, hnone]
    | ok step =>
      -- a token writes one step only
      have hone : ∀ step' : Step, step'.WrittenAs token ↔ step = step' := by
        intro step'
        rw [← readStep_eq_ok_iff, hstep]
        simp
      cases hrest : tokens.mapM readStep with
      | error d => cases steps <;> simp [bind, Except.bind, ← ih, hrest]
      | ok rest => cases steps <;> simp [bind, Except.bind, pure, Except.pure, ← ih, hrest, hone]

/-- Tokens that make a production of a head: each writes a step, there is one at least, and the first
is not the head itself. -/
structure Forms (head : String) (tokens : List String) (steps : List Step) : Prop where
  written : List.Forall₂ (fun token step => step.WrittenAs token) tokens steps
  ne_nil : steps ≠ []
  other : ∀ first ∈ steps.head?, first.nonterminal = true →
    Text.lower first.symbol ≠ Text.lower head

/-- The words of a line make a production of a head exactly if they are read as steps and there is
one at least. A line whose first step is the head itself is not read. -/
theorem forms_iff {head line : String} {steps : List Step} :
    Forms head (Text.words line) steps ↔ readSteps head line = .ok steps ∧ steps ≠ [] := by
  constructor
  · rintro ⟨written, ne_nil, other⟩
    refine ⟨?_, ne_nil⟩
    rw [readSteps, mapM_readStep_eq_ok_iff.2 written]
    cases steps with
    | nil => exact absurd rfl ne_nil
    | cons first rest =>
      have hother := other first rfl
      simp only [bind, Except.bind, pure, Except.pure]
      rw [if_neg (by simpa using hother)]
  -- the other way: what was read is written by the tokens, and its first step was compared with the
  -- head
  · rintro ⟨hread, ne_nil⟩
    rw [readSteps] at hread
    cases hmap : (Text.words line).mapM readStep with
    | error d => simp [hmap, bind, Except.bind] at hread
    | ok steps' =>
      rw [hmap] at hread
      cases steps' with
      | nil =>
        cases hread
        exact absurd rfl ne_nil
      | cons first rest =>
        simp only [bind, Except.bind, pure, Except.pure] at hread
        split at hread
        · cases hread
        · rename_i hother
          cases hread
          refine ⟨mapM_readStep_eq_ok_iff.1 hmap, ne_nil, ?_⟩
          intro q hq hn hsame
          cases hq
          exact hother (by simp [hn, hsame])

/-- The words of a line without brackets are steps, whatever the head. None of them is a head, so
the rule that a head must not stand alone under itself does not apply. -/
theorem forms_words {line : String} (hne : Text.words line ≠ [])
    (hopens : ∀ w ∈ Text.words line, ∀ c ∈ w.toList.head?, c ≠ '[' ∧ c ≠ '<')
    (hcloses : ∀ w ∈ Text.words line, ∀ c ∈ w.toList.getLast?, c ≠ ']' ∧ c ≠ '>') (head : String) :
    Forms head (Text.words line) ((Text.words line).map fun w => ⟨w, false⟩) where
  written := by
    rw [List.forall₂_map_right_iff, List.forall₂_same]
    refine fun w hw => .word ?_ ?_
    · rw [Option.any_eq_false]
      exact fun c hc => by simpa [isOpening] using hopens w hw c hc
    · rw [Option.any_eq_false]
      exact fun c hc => by simpa [isClosing] using hcloses w hw c hc
  ne_nil := by simpa using hne
  other := by
    intro first hfirst hnonterminal
    obtain ⟨w, _, rfl⟩ := List.mem_map.1 (List.mem_of_mem_head? hfirst)
    cases hnonterminal

/-- Every step is written as one of the tokens. -/
theorem Forms.exists_written {head : String} {tokens : List String} {steps : List Step}
    (h : Forms head tokens steps) {step : Step} (hstep : step ∈ steps) :
    ∃ token ∈ tokens, step.WrittenAs token := by
  obtain ⟨i, hi⟩ := List.getElem?_of_mem hstep
  obtain ⟨hlt, rfl⟩ := List.getElem?_eq_some_iff.1 hi
  have hlt' : i < tokens.length := h.written.length_eq ▸ hlt
  exact ⟨_, List.get_mem tokens ⟨i, hlt'⟩, h.written.get hlt' hlt⟩

/-- The symbols of a production that comes from a line are words: they have no spacing in them. -/
theorem Forms.isWord {head line : String} {steps : List Step}
    (h : Forms head (Text.words line) steps) : ∀ step ∈ steps, Text.IsWord step.symbol := by
  intro step hstep
  obtain ⟨token, htoken, hwritten⟩ := h.exists_written hstep
  have hword := Text.isWord_of_mem_words htoken
  cases hwritten with
  | word _ _ => exact hword
  | head _ _ named => exact ⟨named, fun d hd => hword.2 d (by simp [hd])⟩

/-! ## Tidy grammars -/

/-- All symbols are words, and the keys are those of the productions. -/
structure Tidy (g : Grammar) : Prop where
  isWord : ∀ p ∈ g.productions.toList, ∀ step ∈ p.steps, Text.IsWord step.symbol
  keys : ∀ key, g.keys.contains key = true ↔ ∃ p ∈ g.productions.toList, p.key = key

theorem tidy_of_isEmpty {g : Grammar} (hp : g.productions = #[]) (hk : g.keys = ∅) : g.Tidy where
  isWord := by simp [hp]
  keys := by simp [hp, hk]

/-- Only productions and keys matter to tidiness. -/
theorem Tidy.of_eq {g g' : Grammar} (h : g.Tidy) (hp : g'.productions = g.productions)
    (hk : g'.keys = g.keys) : g'.Tidy where
  isWord := by rw [hp]; exact h.isWord
  keys := by rw [hp, hk]; exact h.keys

/-- A change of the productions that leaves heads and steps alone keeps a grammar tidy. -/
theorem Tidy.map {g : Grammar} (h : g.Tidy) {f : Production → Production}
    (hhead : ∀ p, (f p).head = p.head) (hsteps : ∀ p, (f p).steps = p.steps) :
    Tidy { g with productions := g.productions.map f } where
  isWord p hp step hstep := by
    simp only [Array.toList_map, List.mem_map] at hp
    obtain ⟨q, hq, rfl⟩ := hp
    rw [hsteps] at hstep
    exact h.isWord q hq step hstep
  keys key := by
    -- keys are made of heads and steps, and these stay
    have hkey : ∀ p, (f p).key = p.key := by
      intro p
      simp [Production.key, hhead, hsteps]
    rw [h.keys]
    simp [hkey]

theorem Tidy.withStatuses {g : Grammar} (h : g.Tidy) (status : Nat → Status) :
    (g.withStatuses status).Tidy :=
  h.map (fun _ => rfl) fun _ => rfl

theorem Tidy.setStatus {g : Grammar} (h : g.Tidy) (head : Option String) (status : Status) :
    (g.setStatus head status).1.Tidy := by
  apply h.map <;> (intro p; split <;> rfl)

/-- What some production of a grammar has after one was added. -/
theorem exists_mem_push_iff {α : Type} {g : Grammar} {head : String} {steps : List Step}
    {status : Status} {f : Production → α} {x : α} :
    (∃ p ∈ (g.push head steps status).productions.toList, f p = x)
      ↔ f ⟨g.productions.size, head, steps, status⟩ = x ∨ ∃ p ∈ g.productions.toList, f p = x := by
  simp only [Grammar.push, Array.toList_push, List.mem_append, List.mem_singleton]
  constructor
  · rintro ⟨p, hp | rfl, hx⟩
    · exact .inr ⟨p, hp, hx⟩
    · exact .inl hx
  · rintro (hx | ⟨p, hp, hx⟩)
    · exact ⟨_, .inr rfl, hx⟩
    · exact ⟨p, .inl hp, hx⟩

/-- A production whose symbols are words keeps a grammar tidy. -/
theorem Tidy.push {g : Grammar} (h : g.Tidy) (head : String) {steps : List Step}
    (status : Status) (hsteps : ∀ step ∈ steps, Text.IsWord step.symbol) :
    (g.push head steps status).Tidy where
  isWord p hp step hstep := by
    simp only [Grammar.push, Array.toList_push, List.mem_append, List.mem_singleton] at hp
    rcases hp with hp | rfl
    · exact h.isWord p hp step hstep
    · exact hsteps step hstep
  keys key := by
    rw [exists_mem_push_iff, ← h.keys, Grammar.push, Std.HashSet.contains_insert, Bool.or_eq_true,
      beq_iff_eq]

/-- Remembering an attention phrase keeps a grammar tidy. -/
theorem Tidy.remember {g : Grammar} (h : g.Tidy) (head : String) (steps : List Step) :
    (g.remember head steps).Tidy := by
  unfold Grammar.remember
  split
  · exact h.of_eq rfl rfl
  · exact h

/-- A grammar that is given productions of words is tidy, whatever it had before: its keys are made
anew. -/
theorem Tidy.withProductions {g : Grammar} (ps : List Production)
    (hsteps : ∀ p ∈ ps, ∀ step ∈ p.steps, Text.IsWord step.symbol) :
    (g.withProductions ps).Tidy :=
  withProductions_preserves (fun _ p hp hg => hg.push p.head p.status (hsteps p hp))
    (tidy_of_isEmpty rfl rfl)

/-- An expansion keeps a grammar tidy, since its productions come from lines. -/
theorem Tidy.expand {g : Grammar} (h : g.Tidy) (head line whence : String) :
    (g.expand head line whence).grammar.Tidy := by
  refine expand_preserves (fun line g steps hg hread hne _ => ?_) h line whence
  exact (hg.remember head steps).push head .active (forms_iff.2 ⟨hread, hne⟩).isWord

/-- A retraction keeps a grammar tidy. -/
theorem Tidy.retract {g : Grammar} (h : g.Tidy) (head expansion : String) :
    (g.retract head expansion).grammar.Tidy := by
  unfold Grammar.retract
  simp only
  split
  · exact h
  -- the index of keys is built anew from the productions that are kept
  · have hkept : ∀ keep : Production → Bool,
        (g.withProductions (g.productions.toList.filter keep)).Tidy := by
      intro keep
      apply Tidy.withProductions
      exact fun p hp => h.isWord p (List.mem_filter.1 hp).1
    split
    · exact (hkept _).of_eq rfl rfl
    · exact hkept _

/-- However a grammar was built, its symbols are words and its keys those of its productions. -/
theorem Built.tidy {g : Grammar} (h : g.Built) : g.Tidy := by
  refine h.of_operations (fun _ _ => tidy_of_isEmpty rfl rfl) ?_ ?_ ?_ ?_
  · exact fun g path hg => hg.of_eq rfl rfl
  · exact fun g head line whence hg => hg.expand head line whence
  · exact fun g head expansion hg => hg.retract head expansion
  · exact fun g head status hg => hg.setStatus head status

/-- The symbols of the production at a position are words. -/
theorem Tidy.isWord_at {g : Grammar} (h : g.Tidy) {rule : Nat} {p : Production} {step : Step}
    (hp : g.productions[rule]? = some p) (hstep : step ∈ p.steps) : Text.IsWord step.symbol := by
  apply h.isWord p _ step hstep
  rw [Array.mem_toList_iff]
  exact Array.mem_of_getElem? hp

end Grammar

end Utterance
