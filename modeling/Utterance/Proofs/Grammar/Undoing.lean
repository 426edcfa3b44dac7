import Utterance.Proofs.Grammar.Representation
import Utterance.Proofs.Grammar.Script

/-!
# Taking back what was taught

An expansion denotes keys: those of the productions that its plain lines make. Teaching it adds a
production for each key that is not there yet, so teaching it again does nothing. Retracting it removes
what has one of the keys. So if none of them was there, retracting takes back exactly what was taught.
-/

namespace Utterance.Grammar

variable {g g' : Grammar} {head line expansion : String}

/-! ## What an expansion denotes -/

/-- The key of the production that a plain line makes, if it makes one. -/
def plainKey? (head line : String) : Option RuleKey :=
  match readSteps head line with
  | .ok (step :: steps) => some (keyOf head (step :: steps))
  | .ok [] => none
  | .error _ => none

/-- The keys of the productions that a sugared line of a head stands for. A line whose parentheses do
not nest stands for none. -/
def denoted (g : Grammar) (head line : String) : List RuleKey :=
  if Sugar.isNested line.toList then
    ((Sugar.variants g.dictation.toNat line.toList).map String.ofList).filterMap (plainKey? head)
  else []

/-- A plain line makes a key exactly if its words make a production that has it. -/
theorem plainKey?_eq_some_iff {key : RuleKey} :
    plainKey? head line = some key
      ↔ ∃ steps, Forms head (Text.words line) steps ∧ keyOf head steps = key := by
  simp only [plainKey?, forms_iff]
  cases readSteps head line with
  | error d => simp
  | ok steps => cases steps <;> simp

/-- The keys that a sugared line denotes are those of the productions that its plain lines make. -/
theorem mem_denoted {key : RuleKey} :
    key ∈ g.denoted head line ↔ Sugar.isNested line.toList = true
      ∧ ∃ plain ∈ (Sugar.variants g.dictation.toNat line.toList).map String.ofList,
        ∃ steps, Forms head (Text.words plain) steps ∧ keyOf head steps = key := by
  unfold denoted
  split
  · rename_i hnested
    simp only [hnested, true_and, List.mem_filterMap, plainKey?_eq_some_iff]
  · rename_i hnested
    simp [hnested]

/-- Lines whose parentheses nest and whose question marks stand apart denote what they stand for. -/
theorem mem_denoted_iff_standsFor (hready : Sugar.Ready line.toList) {key : RuleKey} :
    key ∈ g.denoted head line ↔ ∃ steps, g.StandsFor head line steps ∧ keyOf head steps = key := by
  simp only [mem_denoted, Sugar.isNested_of_nested hready.nested, true_and, standsFor_iff hready]
  constructor
  · rintro ⟨plain, hplain, steps, hforms, rfl⟩
    exact ⟨steps, ⟨plain, hplain, hforms⟩, rfl⟩
  · rintro ⟨steps, ⟨plain, hplain, hforms⟩, rfl⟩
    exact ⟨plain, hplain, steps, hforms, rfl⟩

/-- Only the largest number of dictated words matters. -/
theorem denoted_congr (h : g'.dictation = g.dictation) :
    g'.denoted head line = g.denoted head line := by
  unfold denoted
  rw [h]

/-! ## Teaching -/

/-- What an expansion adds: productions at the end with keys that it denotes and that were not there,
until all are there. -/
structure Teaches (g : Grammar) (head line : String) (s : Growth) (added : List Production) : Prop where
  productions : s.grammar.productions.toList = g.productions.toList ++ added
  count : s.added = added.length
  denoted : ∀ p ∈ added, p.key ∈ g.denoted head line
  fresh : ∀ p ∈ added, ∀ q ∈ g.productions.toList, q.key ≠ p.key
  complete : ∀ key ∈ g.denoted head line, ∃ p ∈ s.grammar.productions.toList, p.key = key

/-- An expansion teaches what it denotes. Its plain lines are added one after the other, each if it
is new, and after the last of them all keys are there. -/
theorem exists_teaches_expand (h : g.Tidy) (head line whence : String) :
    ∃ added, Teaches g head line (g.expand head line whence) added := by
  cases hnested : Sugar.isNested line.toList with
  | false =>
    have hnone : g.denoted head line = [] := by simp [Grammar.denoted, hnested]
    refine ⟨[], ?_, ?_, by simp, by simp, by simp [hnone]⟩ <;> simp [expand, hnested]
  | true =>
    obtain ⟨added, hadds⟩ := exists_adds_expand h head hnested whence
    refine ⟨added, hadds.productions, hadds.count, fun p hp => ?_, hadds.fresh, fun key hkey => ?_⟩
    · obtain ⟨rfl, _, plain, hplain, hforms⟩ := hadds.formed p hp
      exact mem_denoted.2 ⟨hnested, plain, hplain, p.steps, hforms, rfl⟩
    · obtain ⟨_, plain, hplain, steps, hforms, rfl⟩ := mem_denoted.1 hkey
      exact hadds.complete plain hplain steps hforms

/-- Teaching adds as many productions as the expansion does. -/
theorem added_extend (g : Grammar) (head expansion : String) :
    (g.extend head expansion).added = (g.expand head expansion ("extend " ++ head)).added := by
  unfold extend
  simp only
  split <;> rfl

/-- Extending a grammar teaches what the expansion denotes. -/
theorem exists_teaches_extend (h : g.Tidy) (head expansion : String) :
    ∃ added, Teaches g head expansion (g.extend head expansion) added := by
  obtain ⟨added, hteaches⟩ := exists_teaches_expand h head expansion ("extend " ++ head)
  refine ⟨added, ?_, ?_, hteaches.denoted, hteaches.fresh, ?_⟩
  · rw [grammar_extend]
    exact hteaches.productions
  · rw [added_extend]
    exact hteaches.count
  · rw [grammar_extend]
    exact hteaches.complete

/-- Teaching leaves the largest number of dictated words. -/
theorem dictation_extend (g : Grammar) (head expansion : String) :
    (g.extend head expansion).grammar.dictation = g.dictation := by
  rw [grammar_extend, grammar_expand]
  exact (within_grow g head expansion).dictation

/-- Teaching an expansion again changes nothing, since all that it denotes is there. -/
theorem extend_extend (g : Grammar) (head expansion : String) :
    ((g.extend head expansion).grammar.extend head expansion).grammar
      = (g.extend head expansion).grammar := by
  simp only [grammar_extend, grammar_expand]
  exact grow_of_within (Within.refl _)

/-- A grammar that stays the same had nothing added to it. -/
theorem Teaches.added_eq_zero {s : Growth} {added : List Production}
    (h : Teaches g head line s added) (hsame : s.grammar = g) : s.added = 0 := by
  have hproductions := h.productions
  rw [hsame, List.self_eq_append_right] at hproductions
  rw [h.count, hproductions, List.length_nil]

/-! ## Retracting -/

/-- What a retraction removes has a key that the expansion denotes. -/
theorem spares_eq (g : Grammar) (head expansion : String) (p : Production) :
    g.spares head expansion p = decide (p.key ∉ g.denoted head expansion) := by
  -- the probe is taught in an empty grammar, where each key that is denoted is new
  have hempty : Tidy { dictation := g.dictation, maxAlerts := 0 } := tidy_of_isEmpty rfl rfl
  obtain ⟨added, hteaches⟩ := exists_teaches_expand hempty head expansion ("retract " ++ head)
  have hdenoted : (g.probe head expansion).keys.contains p.key = true
      ↔ p.key ∈ g.denoted head expansion := by
    rw [probe, (hempty.expand head expansion ("retract " ++ head)).keys]
    constructor
    · rintro ⟨q, hq, hkey⟩
      rw [hteaches.productions] at hq
      rw [← hkey]
      exact hteaches.denoted q (by simpa using hq)
    · exact hteaches.complete p.key
  rw [spares, Bool.eq_iff_iff, Bool.not_eq_true', ← Bool.not_eq_true, hdenoted, decide_eq_true_iff]

/-- Retracting keeps what has another key. -/
theorem filter_spares (g : Grammar) (head expansion : String) :
    g.productions.toList.filter (g.spares head expansion)
      = g.productions.toList.filter (·.key ∉ g.denoted head expansion) :=
  List.filter_congr fun p _ => g.spares_eq head expansion p

/-- Retracting tells how many productions it removed. -/
theorem added_retract (g : Grammar) (head expansion : String) :
    (g.retract head expansion).added
      = g.productions.size - (g.productions.toList.filter (g.spares head expansion)).length := by
  unfold retract
  simp only
  split
  · rename_i hnone
    exact hnone.symm
  · rfl

/-! ## Indexes -/

/-- The keys and the index of heads are those of the productions, so grammars with the same
productions have indexes that answer alike. -/
theorem equiv_of_productions (hg : g.Coherent) (htidy : g.Tidy) (hheads : g.Heads)
    (hg' : g'.Coherent) (htidy' : g'.Tidy) (hheads' : g'.Heads)
    (h : g'.productions = g.productions) :
    g'.keys.Equiv g.keys ∧ g'.byHead.Equiv g.byHead := by
  constructor
  · apply Std.HashSet.Equiv.of_forall_contains_eq
    intro key
    rw [Bool.eq_iff_iff, htidy'.keys, htidy.keys, h]
  · apply Std.HashMap.Equiv.of_forall_getElem?_eq
    intro name
    have hcontains : g'.byHead.contains name = g.byHead.contains name := by
      rw [Bool.eq_iff_iff, hheads' name, hheads name, h]
    -- a head without productions has no entry at all, so equal places are not enough
    have hplaces : g'.byHead.getD name #[] = g.byHead.getD name #[] := by
      rw [← Array.toList_inj, hg'.byHead_eq, hg.byHead_eq, h]
    have hsome : ∀ {m : Std.HashMap String (Array Nat)}, m.contains name = true →
        m[name]? = some (m.getD name #[]) := Std.HashMap.getElem?_eq_some_getD_of_contains
    cases hc : g.byHead.contains name with
    | false =>
      rw [Std.HashMap.getElem?_eq_none_of_contains_eq_false hc,
        Std.HashMap.getElem?_eq_none_of_contains_eq_false (hcontains.trans hc)]
    | true => rw [hsome hc, hsome (hcontains.trans hc), hplaces]

/-! ## Taking back -/

theorem Heads.withStatuses (h : g.Heads) (status : Nat → Status) : (g.withStatuses status).Heads := by
  intro name
  simp [Grammar.withStatuses, h name]

/-- An expansion keeps the index of heads right. -/
theorem Heads.expand (h : g.Heads) (head line whence : String) :
    (g.expand head line whence).grammar.Heads := by
  apply expand_preserves _ h line whence
  intro _ g' steps hg' _ _ _
  refine Heads.push ?_ head steps .active
  unfold remember
  split <;> exact hg'

/-- Teaching keeps a grammar coherent. -/
theorem Coherent.extend (h : g.Coherent) (head expansion : String) :
    (g.extend head expansion).grammar.Coherent := by
  rw [grammar_extend]
  exact h.expand head expansion _

/-- Teaching keeps a grammar tidy. -/
theorem Tidy.extend (h : g.Tidy) (head expansion : String) :
    (g.extend head expansion).grammar.Tidy := by
  rw [grammar_extend]
  exact h.expand head expansion _

/-- Teaching keeps the index of heads right. -/
theorem Heads.extend (h : g.Heads) (head expansion : String) :
    (g.extend head expansion).grammar.Heads := by
  rw [grammar_extend]
  exact h.expand head expansion _

/-- A retraction keeps the index of heads right. -/
theorem Heads.retract (h : g.Heads) (head expansion : String) :
    (g.retract head expansion).grammar.Heads := by
  unfold Grammar.retract
  simp only
  split
  · exact h
  · split <;> exact heads_withProductions _ _

/-- If nothing that an expansion denotes was there, retracting it leaves what was there before it was
taught. -/
theorem productions_retract_extend (hg : g.Coherent) (htidy : g.Tidy)
    (hnew : ∀ p ∈ g.productions.toList, p.key ∉ g.denoted head expansion) :
    ((g.extend head expansion).grammar.retract head expansion).grammar.productions
      = g.productions := by
  obtain ⟨added, hteaches⟩ := exists_teaches_extend htidy head expansion
  have hcoherent := hg.extend head expansion
  rw [← Array.toList_inj, productions_retract hcoherent, filter_spares,
    denoted_congr (dictation_extend g head expansion), hteaches.productions, List.filter_append]
  have hold : g.productions.toList.filter (·.key ∉ g.denoted head expansion) = g.productions.toList :=
    List.filter_eq_self.2 fun p hp => by simpa using hnew p hp
  have hadded : added.filter (·.key ∉ g.denoted head expansion) = [] :=
    List.filter_eq_nil_iff.2 fun p hp => by simpa using hteaches.denoted p hp
  rw [hold, hadded, List.append_nil, hg.renumber_eq]

/-- Teaching and retracting in any state of a grammar. Teaching an expansion a second time adds and
changes nothing. Retracting it removes exactly the productions whose keys it denotes and keeps the
others in their order and with their status, numbered by their positions; the result is how many were
removed. If none of the keys was there before, retracting takes back what teaching did: the productions,
their keys and the index of their heads are as they were. What an expansion denotes is said by its plain
lines, and if it is well written by its signs. -/
theorem retract_undoes_extend {g : Grammar} (hg : g.Built) (status : Nat → Status)
    (head expansion : String) :
    let grammar := g.withStatuses status
    let denoted := grammar.denoted head expansion
    let taught := (grammar.extend head expansion).grammar
    let kept := grammar.productions.toList.filter (·.key ∉ denoted)
    (taught.extend head expansion).grammar = taught
      ∧ (taught.extend head expansion).added = 0
      ∧ (grammar.retract head expansion).grammar.productions.toList = renumber kept
      ∧ (grammar.retract head expansion).added + kept.length = grammar.productions.size
      ∧ ((∀ p ∈ grammar.productions.toList, p.key ∉ denoted) →
        let back := (taught.retract head expansion).grammar
        back.productions = grammar.productions ∧ back.keys.Equiv grammar.keys
          ∧ back.byHead.Equiv grammar.byHead)
      ∧ (∀ key, key ∈ denoted ↔ Sugar.isNested expansion.toList = true
        ∧ ∃ plain ∈ (Sugar.variants grammar.dictation.toNat expansion.toList).map String.ofList,
          ∃ steps, Forms head (Text.words plain) steps ∧ keyOf head steps = key)
      ∧ (Sugar.Ready expansion.toList → ∀ key, key ∈ denoted
        ↔ ∃ steps, grammar.StandsFor head expansion steps ∧ keyOf head steps = key) := by
  intro grammar denoted taught kept
  have hcoherent : grammar.Coherent := hg.coherent.withStatuses status
  have htidy : grammar.Tidy := hg.tidy.withStatuses status
  have hheads : grammar.Heads := hg.heads.withStatuses status
  have hcoherent' : taught.Coherent := hcoherent.extend head expansion
  have htidy' : taught.Tidy := htidy.extend head expansion
  have hheads' : taught.Heads := hheads.extend head expansion
  refine ⟨extend_extend grammar head expansion, ?_, ?_, ?_, fun hnew => ?_, fun key => mem_denoted,
    fun hready key => mem_denoted_iff_standsFor hready⟩
  · obtain ⟨_, hteaches⟩ := exists_teaches_extend htidy' head expansion
    exact hteaches.added_eq_zero (extend_extend grammar head expansion)
  · rw [productions_retract hcoherent, filter_spares]
  -- what is removed and what is kept make up the grammar
  · rw [added_retract, filter_spares]
    have hle : kept.length ≤ grammar.productions.size := by
      rw [← Array.length_toList]
      exact List.length_filter_le _ _
    show grammar.productions.size - kept.length + kept.length = _
    omega
  -- both indexes are determined by the productions, and these are the ones there were
  · have hproductions := productions_retract_extend hcoherent htidy hnew
    exact ⟨hproductions, equiv_of_productions hcoherent htidy hheads (hcoherent'.retract head expansion)
      (htidy'.retract head expansion) (hheads'.retract head expansion) hproductions⟩

/-- Two productions are taught, and retracting them leaves the one that was there. -/
theorem retract_undoes_extend_errand :
    let g := (expand { dictation := 5, maxAlerts := 10 } "errand" "GO #" "").grammar.withStatuses
      fun _ => .top
    g.denoted "errand" "stop (now)"
        = [keyOf "errand" [⟨"stop", false⟩, ⟨"now", false⟩], keyOf "errand" [⟨"stop", false⟩]]
      ∧ (∀ p ∈ g.productions.toList, p.key ∉ g.denoted "errand" "stop (now)")
      ∧ ((g.extend "errand" "stop (now)").grammar.retract "errand" "stop (now)").grammar.productions
        = #[⟨0, "errand", [⟨"GO", false⟩, ⟨"#", false⟩], .top⟩] := by
  intro g
  have hproductions : g.productions = #[⟨0, "errand", [⟨"GO", false⟩, ⟨"#", false⟩], .top⟩] := by
    simp [g, withStatuses, productions_errand]
  have hdenoted : g.denoted "errand" "stop (now)"
      = [keyOf "errand" [⟨"stop", false⟩, ⟨"now", false⟩], keyOf "errand" [⟨"stop", false⟩]] := by
    -- the group is there or is left out, so two lines are denoted
    have hdictation : g.dictation = 5 := by
      show (expand { dictation := 5, maxAlerts := 10 } "errand" "GO #" "").grammar.dictation = 5
      rw [grammar_expand]
      exact (within_grow _ _ _).dictation
    have hvariants : Sugar.variants 5 "stop (now)".toList
        = ["stop  now ".toList, "stop  ".toList] := by decide +kernel
    rw [denoted, if_pos (by decide), hdictation, show (5 : Int).toNat = 5 from rfl, hvariants]
    decide
  have hnew : ∀ p ∈ g.productions.toList, p.key ∉ g.denoted "errand" "stop (now)" := by
    rw [hproductions, hdenoted]
    decide
  obtain ⟨_, _, _, _, hback, _, _⟩ :=
    retract_undoes_extend ((Built.empty 5 10).expand "errand" "GO #" "") (fun _ => .top) "errand"
      "stop (now)"
  refine ⟨hdenoted, hnew, ?_⟩
  rw [← hproductions]
  exact (hback hnew).1

end Utterance.Grammar
