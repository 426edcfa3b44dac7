import Utterance.Proofs.Grammar.Symbols
import Utterance.Proofs.Rule.Sugar

/-!
# Growing a grammar

Expanding a head adds the productions that a sugared line stands for, in the order of its variants and
each only once. What is there already, up to case, is not added again, and what was there before stays
where it was and as it was.
-/

namespace Utterance.Grammar

/-- The key of a production of `head` with the given steps. -/
def keyOf (head : String) (steps : List Step) : RuleKey :=
  ⟨Text.lower head, steps.map Step.folded⟩

/-- Whether a line of `head` stands for an expansion with the given steps: it denotes tokens that make
a production. A negative number of dictated words counts as none. -/
def StandsFor (g : Grammar) (head line : String) (steps : List Step) : Prop :=
  ∃ tokens, Sugar.Denotes g.dictation.toNat (Sugar.signs line.toList) tokens
    ∧ Forms head tokens steps

/-! ## One plain line -/

/-- A line makes one production only. -/
theorem Forms.steps_eq {head line : String} {steps steps' : List Step}
    (h : Forms head (Text.words line) steps) (h' : Forms head (Text.words line) steps') :
    steps = steps' := by
  have hread := (forms_iff.1 h).1
  rw [(forms_iff.1 h').1] at hread
  cases hread
  rfl

/-- What one plain line does: it adds nothing if it makes no production or one that is there, else it
adds its production at the end. -/
theorem Growth.addPlain_cases {s : Growth} (h : s.grammar.Tidy) (head whence line : String) :
    ((s.addPlain head whence line).grammar = s.grammar
        ∧ (s.addPlain head whence line).added = s.added
        ∧ ∀ steps, Forms head (Text.words line) steps →
          ∃ p ∈ s.grammar.productions.toList, p.key = keyOf head steps)
      ∨ ∃ steps, Forms head (Text.words line) steps
        ∧ (∀ p ∈ s.grammar.productions.toList, p.key ≠ keyOf head steps)
        ∧ (s.addPlain head whence line).grammar
          = (s.grammar.remember head steps).push head steps .active
        ∧ (s.addPlain head whence line).added = s.added + 1 := by
  cases hread : readSteps head line with
  | error d =>
    left
    -- a line that cannot be read makes no production
    simp only [addPlain, hread, true_and]
    intro steps hforms
    rw [(forms_iff.1 hforms).1] at hread
    cases hread
  | ok steps =>
    have hkey : s.grammar.hasRule head steps = true
        ↔ ∃ p ∈ s.grammar.productions.toList, p.key = keyOf head steps := h.keys _
    simp only [addPlain, hread]
    split
    · rename_i hskip
      rw [Bool.or_eq_true, List.isEmpty_iff, hkey] at hskip
      refine .inl ⟨rfl, rfl, fun steps' hforms => ?_⟩
      obtain ⟨hread', hne⟩ := forms_iff.1 hforms
      rw [hread] at hread'
      cases hread'
      exact hskip.resolve_left hne
    · rename_i hnew
      rw [Bool.or_eq_true, List.isEmpty_iff, hkey, not_or] at hnew
      refine .inr ⟨steps, forms_iff.2 ⟨hread, hnew.1⟩, fun p hp heq => ?_, rfl, rfl⟩
      exact hnew.2 ⟨p, hp, heq⟩

/-- Remembering an attention phrase leaves the productions. -/
theorem remember_productions (g : Grammar) (head : String) (steps : List Step) :
    (g.remember head steps).productions = g.productions := by
  unfold remember
  split <;> rfl

/-! ## Line after line -/

/-- What is new after some plain lines: productions of the head at the end that the lines make, each of
a key of its own, and all that the lines make are there. -/
structure Adds (g : Grammar) (head : String) (lines : List String) (s : Growth)
    (added : List Production) : Prop where
  tidy : s.grammar.Tidy
  productions : s.grammar.productions.toList = g.productions.toList ++ added
  count : s.added = added.length
  formed : ∀ p ∈ added, p.head = head ∧ p.status = .active
    ∧ ∃ line ∈ lines, Forms head (Text.words line) p.steps
  nodup : (added.map Production.key).Nodup
  fresh : ∀ p ∈ added, ∀ q ∈ g.productions.toList, q.key ≠ p.key
  complete : ∀ line ∈ lines, ∀ steps, Forms head (Text.words line) steps →
    ∃ p ∈ s.grammar.productions.toList, p.key = keyOf head steps

/-- Without lines nothing is new. -/
theorem adds_nil {g : Grammar} (h : g.Tidy) (head : String) : Adds g head [] { grammar := g } [] where
  tidy := h
  productions := (List.append_nil _).symm
  count := rfl
  formed := by simp
  nodup := List.nodup_nil
  fresh := by simp
  complete := by simp

/-- What a line before made, it makes with one line more. -/
theorem Adds.formed_of_append {g : Grammar} {head : String} {lines : List String} {s : Growth}
    {added : List Production} (h : Adds g head lines s added) (line : String) :
    ∀ p ∈ added, p.head = head ∧ p.status = .active
      ∧ ∃ line' ∈ lines ++ [line], Forms head (Text.words line') p.steps := by
  intro p hp
  obtain ⟨hhead, hstatus, line', hline', hforms⟩ := h.formed p hp
  exact ⟨hhead, hstatus, line', List.mem_append_left _ hline', hforms⟩

/-- One line more that adds nothing: what it makes was there. So the list of what was added is the
same, and it is complete for one line more. -/
theorem Adds.keep {g : Grammar} {head line : String} {lines : List String} {s s' : Growth}
    {added : List Production} (h : Adds g head lines s added) (hsame : s'.grammar = s.grammar)
    (hcount : s'.added = s.added)
    (hthere : ∀ steps, Forms head (Text.words line) steps →
      ∃ p ∈ s.grammar.productions.toList, p.key = keyOf head steps) :
    Adds g head (lines ++ [line]) s' added where
  tidy := hsame ▸ h.tidy
  productions := hsame ▸ h.productions
  count := hcount.trans h.count
  formed := h.formed_of_append line
  nodup := h.nodup
  fresh := h.fresh
  complete := by
    intro line' hline' steps hforms
    rw [hsame]
    rcases List.mem_append.1 hline' with hline' | hline'
    · exact h.complete line' hline' steps hforms
    · rw [List.mem_singleton.1 hline'] at hforms
      exact hthere steps hforms

/-- One line more that adds its production: the production stands at the end, and its key is new.
The earlier productions stay where they are, and what the earlier lines make is still there. -/
theorem Adds.concat {g : Grammar} {head line : String} {lines : List String} {s s' : Growth}
    {added : List Production} {steps : List Step} (h : Adds g head lines s added)
    (hforms : Forms head (Text.words line) steps)
    (hnew : ∀ p ∈ s.grammar.productions.toList, p.key ≠ keyOf head steps)
    (hgrown : s'.grammar = (s.grammar.remember head steps).push head steps .active)
    (hcount : s'.added = s.added + 1) :
    Adds g head (lines ++ [line]) s'
      (added ++ [⟨s.grammar.productions.size, head, steps, .active⟩]) := by
  have htoList : s'.grammar.productions.toList
      = s.grammar.productions.toList ++ [⟨s.grammar.productions.size, head, steps, .active⟩] := by
    rw [hgrown]
    simp only [push, remember_productions, Array.toList_push]
  constructor
  case tidy =>
    rw [hgrown]
    exact (h.tidy.remember head steps).push head .active hforms.isWord
  case productions => rw [htoList, h.productions, List.append_assoc]
  case count => rw [hcount, h.count, List.length_append, List.length_singleton]
  case formed =>
    intro p hp
    -- an earlier production, or the new one
    rcases List.mem_append.1 hp with hp | hp
    · exact h.formed_of_append line p hp
    · rw [List.mem_singleton.1 hp]
      exact ⟨rfl, rfl, line, List.mem_append_right _ (List.mem_singleton.2 rfl), hforms⟩
  case nodup =>
    rw [List.map_append, List.nodup_append]
    refine ⟨h.nodup, List.pairwise_singleton _ _, ?_⟩
    -- the key is not in the grammar yet, and so not among those that were added before
    intro key hkey key' hkey'
    obtain ⟨p, hp, rfl⟩ := List.mem_map.1 hkey
    rw [List.mem_singleton.1 hkey']
    apply hnew p
    rw [h.productions]
    exact List.mem_append_right _ hp
  case fresh =>
    intro p hp q hq
    rcases List.mem_append.1 hp with hp | hp
    · exact h.fresh p hp q hq
    · rw [List.mem_singleton.1 hp]
      apply hnew q
      rw [h.productions]
      exact List.mem_append_left _ hq
  case complete =>
    intro line' hline' steps' hforms'
    rw [htoList]
    rcases List.mem_append.1 hline' with hline' | hline'
    · obtain ⟨p, hp, hkey⟩ := h.complete line' hline' steps' hforms'
      exact ⟨p, List.mem_append_left _ hp, hkey⟩
    · rw [List.mem_singleton.1 hline'] at hforms'
      rw [hforms'.steps_eq hforms]
      exact ⟨_, List.mem_append_right _ (List.mem_singleton.2 rfl), rfl⟩

/-- One more line adds one more production at most. -/
theorem Adds.addPlain {g : Grammar} {head : String} {lines : List String} {s : Growth}
    {added : List Production} (h : Adds g head lines s added) (whence line : String) :
    ∃ added', Adds g head (lines ++ [line]) (s.addPlain head whence line) added' := by
  rcases Growth.addPlain_cases h.tidy head whence line with
    ⟨hsame, hcount, hthere⟩ | ⟨steps, hforms, hnew, hgrown, hcount⟩
  · exact ⟨added, h.keep hsame hcount hthere⟩
  · exact ⟨_, h.concat hforms hnew hgrown hcount⟩

/-- More lines one after the other add what they make. Each of them either is new, or makes nothing,
or makes what is there. -/
theorem exists_adds_foldl {g : Grammar} {head : String} (whence : String) (more : List String)
    {lines : List String} {s : Growth} {added : List Production} (h : Adds g head lines s added) :
    ∃ added', Adds g head (lines ++ more) (more.foldl (Growth.addPlain head whence) s) added' := by
  induction more generalizing lines s added with
  | nil => exact ⟨added, by rw [List.append_nil]; exact h⟩
  | cons line more ih =>
    obtain ⟨added', h'⟩ := h.addPlain whence line
    obtain ⟨added'', h''⟩ := ih h'
    refine ⟨added'', ?_⟩
    rw [List.append_assoc, List.singleton_append] at h''
    exact h''

/-! ## Sugared lines -/

/-- What the variants of a line make is what the line stands for. -/
theorem standsFor_iff {g : Grammar} {head line : String} (hready : Sugar.Ready line.toList)
    {steps : List Step} :
    g.StandsFor head line steps
      ↔ ∃ plain ∈ (Sugar.variants g.dictation.toNat line.toList).map String.ofList,
        Forms head (Text.words plain) steps := by
  simp only [StandsFor, ← Sugar.exists_variant_iff hready, List.mem_map]
  constructor
  · rintro ⟨_, ⟨v, hv, rfl⟩, hforms⟩
    exact ⟨_, ⟨v, hv, rfl⟩, hforms⟩
  · rintro ⟨_, ⟨v, hv, rfl⟩, hforms⟩
    exact ⟨_, ⟨v, hv, rfl⟩, hforms⟩

/-- A sugared line whose parentheses nest adds what its plain lines make. -/
theorem exists_adds_expand {g : Grammar} (h : g.Tidy) (head : String) {line : String}
    (hnested : Sugar.isNested line.toList = true) (whence : String) :
    ∃ added, Adds g head ((Sugar.variants g.dictation.toNat line.toList).map String.ofList)
      (g.expand head line whence) added := by
  unfold expand
  simp only [hnested, Bool.not_true, Bool.false_eq_true, if_false]
  exact exists_adds_foldl _ _ (adds_nil h head)

/-- A plain line whose production is not there yet adds it at the end. -/
theorem productions_expand_plain {g : Grammar} (h : g.Tidy) {head line : String}
    {steps : List Step} (hnested : Sugar.isNested line.toList = true)
    (hplain : line.toList.any Sugar.isSugar = false)
    (hforms : Forms head (Text.words line) steps)
    (hnew : ∀ p ∈ g.productions.toList, p.key ≠ keyOf head steps) (whence : String) :
    (g.expand head line whence).grammar.productions
      = g.productions.push ⟨g.productions.size, head, steps, .active⟩ := by
  have hgrammar : ∀ place, (Growth.addPlain head place { grammar := g } line).grammar.productions
      = g.productions.push ⟨g.productions.size, head, steps, .active⟩ := by
    intro place
    rcases @Growth.addPlain_cases { grammar := g } h head place line with
      ⟨_, _, hthere⟩ | ⟨steps', hforms', _, hgrown, _⟩
    · obtain ⟨p, hp, hkey⟩ := hthere steps hforms
      exact absurd hkey (hnew p hp)
    · rw [hgrown, hforms'.steps_eq hforms]
      simp only [push, remember_productions]
  simp only [expand, hnested, Sugar.variants_eq_singleton hplain, Bool.not_true,
    Bool.false_eq_true, if_false, List.map_singleton, String.ofList_toList, List.foldl_cons, List.foldl_nil]
  exact hgrammar _

/-- A plain line that is new to a grammar that can be built is one more production of it. -/
theorem Built.expand_plain {g : Grammar} (hg : g.Built) {head line : String} {steps : List Step}
    (hnested : Sugar.isNested line.toList = true) (hplain : line.toList.any Sugar.isSugar = false)
    (hforms : Forms head (Text.words line) steps)
    (hnew : ∀ p ∈ g.productions.toList, p.key ≠ keyOf head steps) :
    (g.expand head line "").grammar.Built ∧ (g.expand head line "").grammar.productions
      = g.productions.push ⟨g.productions.size, head, steps, .active⟩ :=
  ⟨hg.expand head line "", productions_expand_plain hg.tidy hnested hplain hforms hnew ""⟩

/-- Expanding a head with a line whose parentheses nest and whose question marks stand apart adds
exactly the productions that the line stands for and that were not there up to case, each once, and
tells how many they are. What was there keeps its place and its status. -/
theorem expand_adds {g : Grammar} (hg : g.Built) (status : Nat → Status)
    (head line whence : String) (hnested : Sugar.Nested (Sugar.signs line.toList))
    (hapart : Sugar.Apart line.toList) :
    let grammar := g.withStatuses status
    let grown := grammar.expand head line whence
    ∃ added, grown.grammar.productions.toList = grammar.productions.toList ++ added
      ∧ grown.added = added.length
      ∧ (∀ p ∈ added, p.head = head ∧ p.status = .active ∧ grammar.StandsFor head line p.steps)
      ∧ (added.map Production.key).Nodup
      ∧ ∀ key, (∃ p ∈ added, p.key = key)
        ↔ (∃ steps, grammar.StandsFor head line steps ∧ keyOf head steps = key)
          ∧ ∀ p ∈ grammar.productions.toList, p.key ≠ key := by
  intro grammar grown
  have hready : Sugar.Ready line.toList := ⟨hnested, hapart⟩
  obtain ⟨added, hadds⟩ := exists_adds_expand (hg.tidy.withStatuses status) head
    (Sugar.isNested_of_nested hnested) whence
  have hformed : ∀ p ∈ added, p.head = head ∧ p.status = .active
      ∧ grammar.StandsFor head line p.steps := by
    intro p hp
    obtain ⟨hhead, hstatus, hforms⟩ := hadds.formed p hp
    exact ⟨hhead, hstatus, (standsFor_iff hready).2 hforms⟩
  refine ⟨added, hadds.productions, hadds.count, hformed, hadds.nodup, fun key => ⟨?_, ?_⟩⟩
  -- what was added is what the line stands for, and was not there
  · rintro ⟨p, hp, rfl⟩
    obtain ⟨hhead, _, hstands⟩ := hformed p hp
    refine ⟨⟨p.steps, hstands, ?_⟩, fun q hq => hadds.fresh p hp q hq⟩
    rw [← hhead]
    rfl
  -- what the line stands for is there in the end, so it is new if it was not there before
  · rintro ⟨⟨steps, hstands, rfl⟩, hnew⟩
    obtain ⟨plain, hplain, hforms⟩ := (standsFor_iff hready).1 hstands
    obtain ⟨p, hp, hkey⟩ := hadds.complete plain hplain steps hforms
    rw [hadds.productions] at hp
    rcases List.mem_append.1 hp with hp | hp
    · exact absurd hkey (hnew p hp)
    · exact ⟨p, hp, hkey⟩

/-- The grammar of the example has one production. -/
theorem productions_errand :
    (expand { dictation := 5, maxAlerts := 10 } "errand" "GO #" "").grammar.productions
      = #[⟨0, "errand", [⟨"GO", false⟩, ⟨"#", false⟩], .active⟩] := by
  have hforms : Forms "errand" (Text.words "GO #") [⟨"GO", false⟩, ⟨"#", false⟩] :=
    forms_iff.2 ⟨by decide, by decide⟩
  exact productions_expand_plain (tidy_of_isEmpty rfl rfl) (by decide) (by decide) hforms (by simp) ""

/-- Of the four expansions that the line stands for, one is there already in another case, so three
are added. -/
theorem expand_adds_errand :
    let g := (expand { dictation := 5, maxAlerts := 10 } "errand" "GO #" "").grammar.withStatuses
      fun _ => .top
    ∃ added, (g.expand "errand" "go (home) ?" "").grammar.productions.toList
        = ⟨0, "errand", [⟨"GO", false⟩, ⟨"#", false⟩], .top⟩ :: added
      ∧ (∃ p ∈ added, p.key = keyOf "errand" [⟨"go", false⟩, ⟨"home", false⟩, ⟨"#", false⟩])
      ∧ ¬ ∃ p ∈ added, p.key = keyOf "errand" [⟨"go", false⟩, ⟨"#", false⟩] := by
  intro g
  have hold : g.productions.toList
      = [⟨0, "errand", [⟨"GO", false⟩, ⟨"#", false⟩], .top⟩] := by
    simp [g, withStatuses, productions_errand]
  obtain ⟨added, hproductions, _, _, _, hkeys⟩ :=
    expand_adds ((Built.empty 5 10).expand "errand" "GO #" "") (fun _ => .top) "errand"
      "go (home) ?" "" (Sugar.nested_of_isNested (by decide)) (by decide)
  rw [hold] at hproductions hkeys
  -- one that is new, and the one that is there
  refine ⟨added, hproductions, (hkeys _).2 ⟨⟨_, ?_, rfl⟩, by decide⟩, ?_⟩
  · -- the group is there, and the question mark is a wildcard
    have hsigns : Sugar.signs "go (home) ?".toList
        = .word "go" :: .opens :: [.word "home"] ++ .closes :: [.maybe] := by decide
    have hdenotes : Sugar.Denotes g.dictation.toNat (Sugar.signs "go (home) ?".toList)
        ["go", "home", "#"] := by
      rw [hsigns]
      have hmaybe : Sugar.Sign.maybe.Allows g.dictation.toNat 1 := Nat.le_refl 1
      exact .word (.present (.word .nil) (.wild hmaybe .nil))
    have hforms : Forms "errand" (Text.words "go home #")
        [⟨"go", false⟩, ⟨"home", false⟩, ⟨"#", false⟩] := forms_iff.2 ⟨by decide, by decide⟩
    have hwords : Text.words "go home #" = ["go", "home", "#"] := by decide
    rw [hwords] at hforms
    exact ⟨_, hdenotes, hforms⟩
  · intro hadded
    have hlower : Text.lower "GO" = Text.lower "go" := by decide
    apply ((hkeys _).1 hadded).2 _ (List.mem_singleton.2 rfl)
    simp [Production.key, keyOf, Step.folded, hlower]

end Utterance.Grammar
