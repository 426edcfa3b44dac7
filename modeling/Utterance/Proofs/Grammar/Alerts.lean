import Utterance.Proofs.Grammar.Undoing

/-!
# Attention phrases and their rules

An attention phrase is remembered when its rule is added, and the rules are kept apart from the
phrases. Adding, loading and statuses never take a rule away, and clearing forgets the phrases as well.
Retracting takes away every rule with a denoted key, in any spelling, but forgets a phrase only if the
head and the phrase are spelled as they were taught. So a phrase without a rule was left behind by a
retraction in another spelling, and this does happen.
-/

namespace Utterance.Grammar

variable {g : Grammar} {head expansion phrase : String}

/-! ## Calls -/

/-- A call that changes a grammar. -/
inductive Call where
  | load (irregulars : Option Irregulars) (view : Files.View) (path : String)
  | expand (head line whence : String)
  | extend (head expansion : String)
  | retract (head expansion : String)
  | clear
  | setStatus (head : Option String) (status : Status)
  | setStatusNumber (head : Option String) (n : Int)
  | enable (head : Option String)
  | disable (head : Option String)

/-- The grammar after a call. -/
def run (g : Grammar) : Call → Grammar
  | .load irregulars view path => (g.load irregulars view path).state.1
  | .expand head line whence => (g.expand head line whence).grammar
  | .extend head expansion => (g.extend head expansion).grammar
  | .retract head expansion => (g.retract head expansion).grammar
  | .clear => g.clear
  | .setStatus head status => (g.setStatus head status).1
  | .setStatusNumber head n => (g.setStatusNumber head n).state
  | .enable head => (g.enable head).1
  | .disable head => (g.disable head).1

/-- The grammar after several calls. -/
def runAll (g : Grammar) (calls : List Call) : Grammar := calls.foldl run g

theorem runAll_append_singleton (g : Grammar) (calls : List Call) (call : Call) :
    g.runAll (calls ++ [call]) = (g.runAll calls).run call := by
  rw [runAll, List.foldl_append, List.foldl_cons, List.foldl_nil, runAll]

/-! ## Rules of phrases -/

/-- A rule that stands for an attention phrase, as both are spelled. -/
def HasAlert (g : Grammar) (phrase : String) : Prop :=
  ∃ p ∈ g.productions.toList, p.head = attention ∧ p.phrase = phrase

/-- Each attention phrase has a rule, or is excused. -/
def Backed (excused : String → Prop) (g : Grammar) : Prop :=
  ∀ phrase ∈ g.alerts, g.HasAlert phrase ∨ excused phrase

variable {excused : String → Prop}

/-- Without attention phrases there is nothing to show. -/
theorem backed_of_alerts_eq_nil (h : g.alerts = []) : g.Backed excused := by
  intro phrase hphrase
  rw [h] at hphrase
  cases hphrase

theorem Backed.mono {excused' : String → Prop} (h : g.Backed excused)
    (himp : ∀ phrase, excused phrase → excused' phrase) : g.Backed excused' :=
  fun phrase hphrase => (h phrase hphrase).imp_right (himp phrase)

/-- What is remembered is a phrase of the rule that is added, and the rules that were there stay. -/
theorem Backed.push (h : g.Backed excused) (head : String) (steps : List Step) :
    Backed excused ((g.remember head steps).push head steps .active) := by
  have hproductions : ((g.remember head steps).push head steps .active).productions.toList
      = g.productions.toList ++ [⟨g.productions.size, head, steps, .active⟩] := by
    simp only [Grammar.push, remember_productions, Array.toList_push]
  have hold : ∀ phrase ∈ g.alerts,
      ((g.remember head steps).push head steps .active).HasAlert phrase ∨ excused phrase := by
    intro phrase hphrase
    rcases h phrase hphrase with ⟨p, hp, hhead, hsaid⟩ | hexcused
    · refine .inl ⟨p, ?_, hhead, hsaid⟩
      rw [hproductions]
      exact List.mem_append_left _ hp
    · exact .inr hexcused
  intro phrase hphrase
  -- only the rule of the attention head itself is remembered, and only while there is room
  rw [show ((g.remember head steps).push head steps .active).alerts = (g.remember head steps).alerts
    from rfl, remember] at hphrase
  split at hphrase
  · rename_i hroom
    rcases List.mem_append.1 hphrase with hphrase | hphrase
    · exact hold phrase hphrase
    · rw [Bool.and_eq_true, decide_eq_true_eq] at hroom
      refine .inl ⟨⟨g.productions.size, head, steps, .active⟩, ?_, hroom.1,
        (List.mem_singleton.1 hphrase).symm⟩
      rw [hproductions]
      exact List.mem_append_right _ (List.mem_singleton.2 rfl)
  · exact hold phrase hphrase

theorem Backed.expand (h : g.Backed excused) (head line whence : String) :
    Backed excused (g.expand head line whence).grammar :=
  expand_preserves (fun _ _ steps hg _ _ _ => hg.push head steps) h line whence

/-- A status changes neither phrases nor rules. -/
theorem Backed.setStatus (h : g.Backed excused) (head : Option String) (status : Status) :
    Backed excused (g.setStatus head status).1 := by
  intro phrase hphrase
  rcases h phrase hphrase with ⟨p, hp, hhead, hsaid⟩ | hexcused
  · left
    simp only [HasAlert, Grammar.setStatus, Array.toList_map, List.mem_map, exists_exists_and_eq_and]
    refine ⟨p, hp, ?_⟩
    split
    · exact ⟨hhead, hsaid⟩
    · exact ⟨hhead, hsaid⟩
  · exact .inr hexcused

/-! ## Retracting phrases -/

/-- A retraction takes away a rule of an attention phrase but does not forget the phrase: the head is
another spelling of the attention head, or the phrase is another spelling of what is retracted. -/
structure Misses (g : Grammar) (head expansion phrase : String) : Prop where
  removes : ∃ p ∈ g.productions.toList, p.head = attention ∧ p.phrase = phrase
    ∧ p.key ∈ g.denoted head expansion
  keeps : head ≠ attention ∨ ∀ q ∈ (g.probe head expansion).productions.toList, q.phrase ≠ phrase

/-- The phrases that are left are among those before; those of the attention head go if they are
retracted as they are spelled. -/
theorem mem_alerts_retract (h : phrase ∈ (g.retract head expansion).grammar.alerts) :
    phrase ∈ g.alerts ∧ ((g.retract head expansion).grammar = g ∨ head ≠ attention
      ∨ ∀ q ∈ (g.probe head expansion).productions.toList, q.phrase ≠ phrase) := by
  unfold retract at h ⊢
  simp only at h ⊢
  split at h
  · rename_i hnone
    rw [if_pos hnone]
    exact ⟨h, .inl rfl⟩
  · rename_i hsome
    rw [if_neg hsome]
    split at h
    -- phrases go only with productions of the attention head
    · rw [alerts_withProductions, List.mem_filter] at h
      refine ⟨h.1, .inr (.inr fun q hq hsame => ?_)⟩
      have hmem : phrase ∈ (g.probe head expansion).productions.toList.map Production.phrase :=
        List.mem_map.2 ⟨q, hq, hsame⟩
      have hcontains := h.2
      rw [Bool.not_eq_true', ← Bool.not_eq_true, List.contains_iff_mem] at hcontains
      exact hcontains hmem
    · rename_i hhead
      rw [alerts_withProductions] at h
      exact ⟨h, .inr (.inl hhead)⟩

/-- A retraction leaves the phrases backed but for those that it misses. A rule that is spared still
stands for its phrase, and a phrase whose rule is not spared is either forgotten or missed. -/
theorem Backed.retract (hcoherent : g.Coherent) (h : g.Backed excused) (head expansion : String) :
    Backed (fun phrase => excused phrase ∨ g.Misses head expansion phrase)
      (g.retract head expansion).grammar := by
  intro phrase hphrase
  obtain ⟨hold, hspelled⟩ := mem_alerts_retract hphrase
  rcases hspelled with hsame | hkeeps
  · rw [hsame]
    exact (h phrase hold).imp_right .inl
  · rcases h phrase hold with ⟨p, hp, hhead, hsaid⟩ | hexcused
    · by_cases hdenoted : p.key ∈ g.denoted head expansion
      · exact .inr (.inr ⟨⟨p, hp, hhead, hsaid, hdenoted⟩, hkeeps⟩)
      -- a rule that is spared stands for the phrase as before, with another number
      · left
        have hkept : p ∈ g.productions.toList.filter (g.spares head expansion) := by
          rw [filter_spares]
          exact List.mem_filter.2 ⟨hp, by simpa using hdenoted⟩
        obtain ⟨id, hid⟩ := @mem_renumberFrom 0 _ p hkept
        refine ⟨{ p with id }, ?_, hhead, hsaid⟩
        rw [productions_retract hcoherent]
        exact hid
    · exact .inr (.inl hexcused)

/-! ## Histories -/

/-- A retraction among the calls has left a phrase behind, and the grammar was not cleared since. -/
def LeftBehind (g : Grammar) (calls : List Call) (phrase : String) : Prop :=
  ∃ before head expansion after, calls = before ++ .retract head expansion :: after
    ∧ Call.clear ∉ after ∧ (g.runAll before).Misses head expansion phrase

/-- What was left behind stays so until the grammar is cleared. -/
theorem LeftBehind.append {calls : List Call} {call : Call} (h : g.LeftBehind calls phrase)
    (hcall : call ≠ .clear) : g.LeftBehind (calls ++ [call]) phrase := by
  obtain ⟨before, head, expansion, after, rfl, hafter, hmisses⟩ := h
  refine ⟨before, head, expansion, after ++ [call], by simp, ?_, hmisses⟩
  rw [List.mem_append, List.mem_singleton, not_or]
  exact ⟨hafter, hcall.symm⟩

/-- One more call. Loading, teaching and statuses keep what is backed; a retraction adds what it
misses to what was left behind; after a clearing there are no phrases. -/
theorem Backed.run {calls : List Call} (hcoherent : (g.runAll calls).Coherent)
    (h : (g.runAll calls).Backed (g.LeftBehind calls)) (call : Call) :
    ((g.runAll calls).run call).Backed (g.LeftBehind (calls ++ [call])) := by
  -- what was left behind before the call still is after it, unless the call clears the grammar
  have hstays : call ≠ .clear → (g.runAll calls).Backed (g.LeftBehind (calls ++ [call])) :=
    fun hcall => h.mono fun _ hleft => hleft.append hcall
  cases call with
  | load irregulars view path =>
    exact load_preserves (fun _ head line whence hg => hg.expand head line whence)
      (fun _ _ hg => hg) (hstays Call.noConfusion) irregulars view path
  | expand head line whence => exact (hstays Call.noConfusion).expand head line whence
  | extend head expansion =>
    rw [Grammar.run, grammar_extend]
    exact (hstays Call.noConfusion).expand head expansion _
  | retract head expansion =>
    refine (h.retract hcoherent head expansion).mono fun phrase hexcused => ?_
    rcases hexcused with hleft | hmisses
    · exact hleft.append Call.noConfusion
    · exact ⟨calls, head, expansion, [], rfl, List.not_mem_nil, hmisses⟩
  | clear => exact backed_of_alerts_eq_nil rfl
  | setStatus head status => exact (hstays Call.noConfusion).setStatus head status
  | setStatusNumber head n =>
    rw [Grammar.run, setStatusNumber]
    split
    · exact (hstays Call.noConfusion).setStatus head _
    · split <;> exact hstays Call.noConfusion
  | enable head => exact (hstays Call.noConfusion).setStatus head .top
  | disable head => exact (hstays Call.noConfusion).setStatus head .active

/-- A call leads from a built grammar to a built one. -/
theorem built_run (hg : g.Built) (call : Call) : (g.run call).Built := by
  cases call with
  | load irregulars view path => exact hg.load irregulars view path
  | expand head line whence => exact hg.expand head line whence
  | extend head expansion => exact hg.extend head expansion
  | retract head expansion => exact hg.retract head expansion
  | clear => exact hg.clear
  | setStatus head status => exact hg.setStatus head status
  | setStatusNumber head n => exact hg.setStatusNumber head n
  | enable head => exact hg.enable head
  | disable head => exact hg.disable head

/-- Calls one after the other lead from a built grammar to a built one. -/
theorem built_runAll (hg : g.Built) (calls : List Call) : (g.runAll calls).Built := by
  induction calls generalizing g with
  | nil => exact hg
  | cons call calls ih => exact ih (built_run hg call)

/-- Whatever was called, each attention phrase is that of a rule with the attention head, as both are
spelled, unless a retraction took away its rule in another spelling. Such a retraction has the
attention head up to case, denotes the key of the rule, and has another head or no expansion that is
spelled as the phrase. -/
theorem alerts_backed_or_left_behind (dictation maxAlerts : Int) (calls : List Call) :
    let empty : Grammar := { dictation, maxAlerts }
    let g := empty.runAll calls
    ∀ phrase ∈ g.alerts,
      (∃ p ∈ g.productions.toList, p.head = attention ∧ p.phrase = phrase)
        ∨ ∃ before head expansion after, calls = before ++ .retract head expansion :: after
          ∧ Call.clear ∉ after ∧ (empty.runAll before).Misses head expansion phrase := by
  intro empty g
  suffices hbacked : g.Backed (empty.LeftBehind calls) from hbacked
  show (empty.runAll calls).Backed (empty.LeftBehind calls)
  -- from the last call backwards, since what was left behind depends on the calls after it
  induction calls using List.reverseRecOn with
  | nil => exact backed_of_alerts_eq_nil rfl
  | append_singleton calls call ih =>
    rw [runAll_append_singleton]
    have hcoherent := (built_runAll (Built.empty dictation maxAlerts) calls).coherent
    exact Backed.run hcoherent ih call

/-! ## A phrase in two spellings -/

theorem plain_upper : Plain "Robot" :=
  ⟨Text.isWord_of_all (by decide) (by decide), by decide, by decide, by decide, by decide⟩

theorem plain_lower : Plain "robot" :=
  ⟨Text.isWord_of_all (by decide) (by decide), by decide, by decide, by decide, by decide⟩

/-- A grammar with an attention phrase. -/
def robots : Grammar := (extend { dictation := 5, maxAlerts := 10 } "ATTN" "Robot").grammar

/-- The grammar with an attention phrase can be built. -/
theorem built_robots : robots.Built := (Built.empty 5 10).extend "ATTN" "Robot"

/-- It is the empty grammar with one rule, whose phrase is remembered. -/
theorem robots_eq : robots
    = (remember { dictation := 5, maxAlerts := 10 } "ATTN" (wordSteps "Robot")).push "ATTN"
      (wordSteps "Robot") .active := by
  have hempty : Tidy { dictation := 5, maxAlerts := 10 } := tidy_of_isEmpty rfl rfl
  rw [robots, grammar_extend]
  rcases plain_upper.expand_cases hempty "ATTN" ("extend " ++ "ATTN") with ⟨_, p, hp, _⟩ | ⟨hgrown, _⟩
  · cases hp
  · exact hgrown

theorem productions_robots : robots.productions = #[⟨0, "ATTN", wordSteps "Robot", .active⟩] := by
  rw [robots_eq]
  rfl

theorem mem_alerts_robots : "Robot" ∈ robots.alerts := by
  rw [robots_eq]
  decide

/-- Nothing was retracted, so the phrase that was taught has its rule. -/
theorem alerts_backed_robots :
    let g := runAll { dictation := 5, maxAlerts := 10 } [.extend "ATTN" "Robot"]
    "Robot" ∈ g.alerts ∧ ∃ p ∈ g.productions.toList, p.head = attention ∧ p.phrase = "Robot" := by
  refine ⟨mem_alerts_robots, ?_⟩
  rcases alerts_backed_or_left_behind 5 10 [.extend "ATTN" "Robot"] "Robot" mem_alerts_robots with
    hbacked | ⟨before, head, expansion, after, hcalls, _⟩
  · exact hbacked
  · have hmem : Call.retract head expansion ∈ [Call.extend "ATTN" "Robot"] := by
      rw [hcalls]
      simp
    cases List.mem_singleton.1 hmem

/-- A phrase that is missed stays, whatever else is retracted with its rule. The phrases that a
retraction forgets are those of the rules it takes, as they are spelled there. -/
theorem mem_alerts_of_misses (hphrase : phrase ∈ g.alerts) (h : g.Misses head expansion phrase) :
    phrase ∈ (g.retract head expansion).grammar.alerts := by
  unfold retract
  simp only
  split
  · exact hphrase
  · split
    · rename_i hhead
      rw [alerts_withProductions, List.mem_filter]
      refine ⟨hphrase, ?_⟩
      rw [Bool.not_eq_true', ← Bool.not_eq_true, List.contains_iff_mem, List.mem_map]
      rintro ⟨q, hq, hsame⟩
      exact h.keeps.resolve_left (not_not_intro hhead) q hq hsame
    · rw [alerts_withProductions]
      exact hphrase

/-- One word that is retracted in another spelling is missed: its rule is found by its key, which
has no case, and its phrase by its spelling. -/
theorem Plain.misses {word other : String} (hother : Plain other)
    (hlower : Text.lower word = Text.lower other) (hne : word ≠ other) {p : Production}
    (hp : p ∈ g.productions.toList) (hhead : p.head = attention) (hsteps : p.steps = wordSteps word) :
    g.Misses attention other word where
  removes := by
    refine ⟨p, hp, hhead, ?_, ?_⟩
    · rw [Production.phrase, hsteps, wordSteps]
      simp
    · refine mem_denoted.2 ⟨hother.nested, other, ?_, wordSteps other, hother.forms attention, ?_⟩
      · rw [hother.variants]
        exact List.mem_singleton.2 rfl
      · simp [keyOf, Production.key, hhead, hsteps, wordSteps, Step.folded, hlower]
  keeps := by
    have hempty : Tidy { dictation := g.dictation, maxAlerts := 0 } := tidy_of_isEmpty rfl rfl
    -- the expansion that is retracted stands for one phrase, which is spelled in another way
    have hprobe : (g.probe attention other).productions
        = #[⟨0, attention, wordSteps other, .active⟩] :=
      productions_expand_plain hempty hother.nested hother.sugarless (hother.forms attention) (by simp) _
    refine .inr fun q hq hsame => hne ?_
    rw [hprobe, List.mem_singleton] at hq
    rw [← hsame, hq, Production.phrase, wordSteps]
    simp

/-- The rule of a phrase is retracted in lower case. The rule is found whatever its case and goes,
but the phrase is not found among the alerts, and stays without a rule. -/
theorem stale_alert :
    let g := runAll { dictation := 5, maxAlerts := 10 }
      [.extend "ATTN" "Robot", .retract "ATTN" "robot"]
    "Robot" ∈ g.alerts ∧ ¬ ∃ p ∈ g.productions.toList, Text.lower p.head = Text.lower attention
      ∧ Text.lower p.phrase = Text.lower "Robot" := by
  have hlower : Text.lower "Robot" = Text.lower "robot" := by decide
  have hrule : ⟨0, "ATTN", wordSteps "Robot", .active⟩ ∈ robots.productions.toList := by
    rw [productions_robots]
    exact List.mem_singleton.2 rfl
  have hmisses := plain_lower.misses hlower (by decide) hrule rfl rfl
  refine ⟨mem_alerts_of_misses mem_alerts_robots hmisses, ?_⟩
  -- no rule is left
  have hnone : (runAll { dictation := 5, maxAlerts := 10 }
      [.extend "ATTN" "Robot", .retract "ATTN" "robot"]).productions.toList = [] := by
    refine (plain_lower.productions_retract built_robots.coherent "ATTN").trans ?_
    rw [productions_robots]
    decide
  rintro ⟨p, hp, _⟩
  rw [hnone] at hp
  cases hp

end Utterance.Grammar
