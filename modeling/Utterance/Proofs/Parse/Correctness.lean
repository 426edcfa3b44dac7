import Utterance.Proofs.Parse

/-!
# Correctness of parsing

The three things that a parse promises, for every grammar that can be built, with whatever status its
productions have. The candidates are exactly the productions that may start a sentence and derive all
its words. Each has the best score that any of its derivations has, and the first best of them is
selected. And the pointers of every state in the chart, finished or not, describe a derivation of what
the state covers, with the score of the state.
-/

namespace Utterance

namespace Analysis

/-! ## Candidates of a charted sentence -/

section Charted

variable {g : Grammar} {words : List String} {o : Outcome Analysis Nat}

/-- The chart of a charted sentence is saturated. -/
theorem Charted.saturated (hg : g.Coherent) (h : Charted g words o) :
    o.state.chart.Saturated (Task.ofWords g words) := by
  rw [h.chart]
  exact Task.saturated_chart hg

/-- The candidates are the finished items over the whole sentence of productions that may start one. -/
theorem Charted.mem_candidates (hg : g.Coherent) (h : Charted g words o) {id : Nat} :
    id ∈ o.state.candidates
      ↔ ∃ s p, o.state.chart.states[id]? = some s ∧ g.productions[s.item.rule]? = some p
        ∧ p.status = .top ∧ s.item = ⟨s.item.rule, 0, words.length, p.steps.length⟩ := by
  rw [h.candidates, mem_covering]
  constructor
  · rintro ⟨s, hs, hcovers⟩
    obtain ⟨p, hp, htop, hitem⟩ := (covers_iff (h.saturated hg).wellFormed hs).1 hcovers
    rw [length_ofWords] at hitem
    exact ⟨s, p, hs, hp, htop, hitem⟩
  · rintro ⟨s, p, hs, hp, htop, hitem⟩
    rw [← length_ofWords g words] at hitem
    exact ⟨s, hs, (covers_iff (h.saturated hg).wellFormed hs).2 ⟨p, hp, htop, hitem⟩⟩

/-- Every candidate has a state. -/
theorem Charted.exists_state (h : Charted g words o) :
    ∀ id ∈ o.state.candidates, ∃ s, o.state.chart.states[id]? = some s := by
  intro id hid
  rw [h.candidates, mem_covering] at hid
  obtain ⟨s, hs, _⟩ := hid
  exact ⟨s, hs⟩

/-- The score of a candidate is the least that a derivation by its production has. -/
theorem Charted.isLeast_score (hg : g.Coherent) (h : Charted g words o) {id : Nat}
    (hid : id ∈ o.state.candidates) :
    ∃ s, o.state.chart.states[id]? = some s
      ∧ IsLeast (Tree.score g '' g.derivations words s.item.rule) s.score := by
  obtain ⟨s, p, hs, hp, htop, hitem⟩ := (h.mem_candidates hg).1 hid
  have hc := h.saturated hg
  exact ⟨s, hs, hc.isLeast_score hg (words_ofWords g words) hp htop hs hitem⟩

/-- A production is found if and only if it may start a sentence and derives this one. What is found
is a state over the whole sentence, and such states stand for derivations in both directions. -/
theorem Charted.mem_rules (hg : g.Coherent) (h : Charted g words o) {rule : Nat} :
    rule ∈ o.state.rules
      ↔ (∃ p, g.productions[rule]? = some p ∧ p.status = .top)
        ∧ (g.derivations words rule).Nonempty := by
  simp only [rules, List.mem_filterMap, Option.map_eq_some_iff]
  constructor
  · rintro ⟨id, hid, s, hs, rfl⟩
    obtain ⟨s', p, hs', hp, htop, _⟩ := (h.mem_candidates hg).1 hid
    rw [hs, Option.some.injEq] at hs'
    subst hs'
    -- the least score is the score of a derivation
    obtain ⟨s', hs', ⟨tree, htree, _⟩, _⟩ := h.isLeast_score hg hid
    rw [hs, Option.some.injEq] at hs'
    subst hs'
    exact ⟨⟨p, hp, htop⟩, tree, htree⟩
  · rintro ⟨⟨p, hp, htop⟩, tree, htree⟩
    -- conversely, the chart has a state for every derivation
    have hc := h.saturated hg
    obtain ⟨id, s, hs, hitem, _⟩ :=
      hc.attains_of_mem_derivations hg (words_ofWords g words) hp htop htree
    have hrule : s.item.rule = rule := by rw [hitem]
    refine ⟨id, (h.mem_candidates hg).2 ⟨s, p, hs, ?_, htop, ?_⟩, s, hs, hrule⟩
    · rw [hrule]
      exact hp
    · rw [hrule]
      exact hitem

/-- A sentence that a production derives is parsed, if the production may start it. This is the
direction of recognition that examples need. -/
theorem candidates_ne_nil (hg : g.Coherent) {sentence : Sentence} {conf : Confidence}
    {read : List (Option Int) × Journal} (hread : conf.read sentence.toWords.length = .ok read)
    (hwords : sentence.toWords ≠ []) {rule : Nat} {p : Production} {tree : Tree}
    (hp : g.productions[rule]? = some p) (htop : p.status = .top)
    (htree : tree ∈ g.derivations sentence.toWords rule) :
    (parse g sentence conf).state.candidates ≠ [] := by
  have hproductions : g.productions ≠ #[] := by
    intro hempty
    simp [hempty] at hp
  have hrule : rule ∈ (parse g sentence conf).state.rules :=
    ((charted_parse hg hread hwords hproductions).mem_rules hg).2 ⟨⟨p, hp, htop⟩, tree, htree⟩
  intro hnil
  rw [rules, hnil] at hrule
  cases hrule

/-- No production is found twice: two candidates with the same production would have the same item. -/
theorem Charted.nodup_rules (hg : g.Coherent) (h : Charted g words o) : o.state.rules.Nodup := by
  have hpairwise : o.state.candidates.Pairwise (· < ·) := by
    rw [h.candidates]
    exact pairwise_covering _ _
  rw [rules, List.Nodup, List.pairwise_filterMap]
  refine hpairwise.imp_of_mem ?_
  intro id id' hid hid' hlt rule hrule rule' hrule' heq
  obtain ⟨s, hs, hsrule⟩ := Option.map_eq_some_iff.1 hrule
  obtain ⟨s', hs', hsrule'⟩ := Option.map_eq_some_iff.1 hrule'
  obtain ⟨q, p, hq, hp, _, hitem⟩ := (h.mem_candidates hg).1 hid
  obtain ⟨q', p', hq', hp', _, hitem'⟩ := (h.mem_candidates hg).1 hid'
  rw [hs, Option.some.injEq] at hq
  rw [hs', Option.some.injEq] at hq'
  subst hq hq'
  -- two candidates of one production would have the same item
  have hsame : s.item.rule = s'.item.rule := by rw [hsrule, hsrule', heq]
  rw [hsame, hp', Option.some.injEq] at hp
  subst hp
  have hid_eq : id = id' :=
    (h.saturated hg).wellFormed.eq_of_item hs hs' (by rw [hitem, hitem', hsame])
  omega

/-- There is a production for each candidate, so the two lists are of one length. -/
theorem Charted.length_rules (h : Charted g words o) :
    o.state.rules.length = o.state.candidates.length := by
  rw [rules, List.filterMap_length_eq_length]
  intro id hid
  obtain ⟨s, hs⟩ := h.exists_state id hid
  simp [hs]

end Charted

/-! ## A small grammar -/

/-- A grammar with one production, that takes up a word after another. -/
def errands : Grammar :=
  (Grammar.expand { dictation := 5, maxAlerts := 10 } "errand" "go #" "").grammar

theorem built_errands : errands.Built := (Grammar.Built.empty 5 10).expand "errand" "go #" ""

theorem productions_errands :
    errands.productions = #[⟨0, "errand", [⟨"go", false⟩, ⟨"#", false⟩], .active⟩] := by
  have hnested : Sugar.isNested "go #".toList = true := by decide
  have hvariants : Sugar.variants 5 "go #".toList = ["go #".toList] := by decide +kernel
  have hread : Grammar.readSteps "errand" "go #" = .ok [⟨"go", false⟩, ⟨"#", false⟩] := by decide
  have hattention : ("errand" = Grammar.attention) = False := by decide
  simp only [errands, Grammar.expand, hnested, Bool.not_true, Bool.false_eq_true, if_false,
    Int.reduceToNat, hvariants, List.map_singleton, String.ofList_toList, List.foldl_cons,
    List.foldl_nil]
  simp [Grammar.Growth.addPlain, hread, Grammar.hasRule, Grammar.remember, Grammar.push, hattention]

/-- The grammar above, with a production that may start a sentence. -/
abbrev topErrands : Grammar := errands.withStatuses fun _ => .top

theorem production_topErrands :
    topErrands.productions[0]? = some ⟨0, "errand", [⟨"go", false⟩, ⟨"#", false⟩], .top⟩ := by
  simp [topErrands, Grammar.withStatuses, productions_errands]

/-- The sentence has one derivation. -/
theorem mem_derivations_topErrands {rule : Nat} {tree : Tree} :
    tree ∈ topErrands.derivations ["Go", "home"] rule
      ↔ rule = 0 ∧ tree = .node 0 0 2 [.word, .word] := by
  constructor
  · rintro ⟨parts, rfl, p, hp, _, hexpands⟩
    have hsize : topErrands.productions.size = 1 := by
      simp [topErrands, Grammar.withStatuses, productions_errands]
    have hlt := (Array.getElem?_eq_some_iff.1 hp).1
    obtain rfl : rule = 0 := by omega
    rw [production_topErrands, Option.some.injEq] at hp
    subst hp
    -- both steps take up a word
    obtain ⟨_, _, _, _, rfl, hrest⟩ := (Grammar.Expands.word_iff rfl).1 hexpands
    obtain ⟨_, _, rfl⟩ := (Grammar.Expands.single_iff rfl).1 hrest
    exact ⟨rfl, rfl⟩
  · rintro ⟨rfl, rfl⟩
    have hgo : Step.Accepts ⟨"go", false⟩ "Go" := .inr (by decide)
    refine ⟨_, rfl, _, production_topErrands, rfl, ?_⟩
    exact .word rfl rfl hgo (.word rfl rfl (.inl (by decide)) (.nil 2))

/-- The sentence has words and can be read, so its chart is filled. -/
theorem charted_topErrands :
    Charted topErrands ["Go", "home"] (parse topErrands (.words ["Go", "home"]) .absent) := by
  have hcoherent : topErrands.Coherent := built_errands.coherent.withStatuses _
  have hproductions : topErrands.productions ≠ #[] := by
    intro hnone
    have hproduction := production_topErrands
    rw [hnone] at hproduction
    cases hproduction
  have hwords : (Sentence.words ["Go", "home"]).toWords ≠ [] := List.cons_ne_nil _ _
  have hread : Confidence.absent.read (Sentence.words ["Go", "home"]).toWords.length = .ok ([], []) :=
    rfl
  exact charted_parse hcoherent hread hwords hproductions

/-- The state over both words is found. -/
theorem exists_candidate_topErrands :
    ∃ id ∈ (parse topErrands (.words ["Go", "home"]) .absent).state.candidates, ∃ s,
      (parse topErrands (.words ["Go", "home"]) .absent).state.chart.states[id]? = some s
        ∧ s.item = ⟨0, 0, 2, 2⟩ := by
  have hcoherent : topErrands.Coherent := built_errands.coherent.withStatuses _
  have htree := mem_derivations_topErrands.2 ⟨rfl, rfl⟩
  obtain ⟨id, s, hs, hitem, _⟩ := (charted_topErrands.saturated hcoherent).attains_of_mem_derivations
    hcoherent (words_ofWords topErrands ["Go", "home"]) production_topErrands rfl htree
  refine ⟨id, (charted_topErrands.mem_candidates hcoherent).2 ?_, s, hs, hitem⟩
  exact ⟨s, _, hs, by rw [hitem]; exact production_topErrands, rfl, by rw [hitem]⟩

/-! ## Recognition -/

/-- A parse finds each production that may start a sentence and derives this one, finds it once, and
finds no other; its result is how many it found. -/
theorem parse_recognizes {g : Grammar} (hg : g.Built) (status : Nat → Status) (sentence : Sentence)
    (conf : Confidence) (hwords : sentence.toWords ≠ []) {read : List (Option Int) × Journal}
    (hread : conf.read sentence.toWords.length = .ok read) :
    let grammar := g.withStatuses status
    let o := parse grammar sentence conf
    (∀ rule, rule ∈ o.state.rules
        ↔ (∃ p, grammar.productions[rule]? = some p ∧ p.status = .top)
          ∧ (grammar.derivations sentence.toWords rule).Nonempty)
      ∧ o.state.rules.Nodup
      ∧ o.state.rules.length = o.state.candidates.length
      ∧ o.result = .ok o.state.rules.length := by
  intro grammar o
  have hcoherent : grammar.Coherent := hg.coherent.withStatuses status
  have hresult : o.result = .ok o.state.candidates.length := result_parse hcoherent hread
  by_cases hproductions : grammar.productions = #[]
  -- there is nothing to derive the sentence with
  · have huncharted : Uncharted o.state := uncharted_parse (.inr (.inr hproductions))
    have hrules : o.state.rules = [] := by rw [rules, huncharted.candidates, List.filterMap_nil]
    refine ⟨fun rule => ?_, by simp [hrules], by simp [hrules, huncharted.candidates], ?_⟩
    · simp [hrules, hproductions]
    · rw [hresult, hrules, huncharted.candidates]
  · have hcharted : Charted grammar sentence.toWords o :=
      charted_parse hcoherent hread hwords hproductions
    refine ⟨fun rule => hcharted.mem_rules hcoherent, hcharted.nodup_rules hcoherent,
      hcharted.length_rules, ?_⟩
    rw [hresult, hcharted.length_rules]

/-- The one rule of the grammar is the one candidate: its derivation takes the first word as it is,
whatever its case, and the second by the wildcard. -/
theorem parse_recognizes_errand :
    (parse topErrands (.words ["Go", "home"]) .absent).state.rules = [0]
      ∧ (parse topErrands (.words ["Go", "home"]) .absent).result = .ok 1 := by
  obtain ⟨hmem, hnodup, _, hresult⟩ :=
    parse_recognizes built_errands (fun _ => .top) (.words ["Go", "home"]) .absent
      (List.cons_ne_nil _ _) rfl
  have hrules : (parse topErrands (.words ["Go", "home"]) .absent).state.rules = [0] := by
    -- the candidates are known as a set only, but without repetition that leaves one list
    apply List.perm_singleton.1
    rw [List.perm_ext_iff_of_nodup hnodup (List.nodup_singleton 0)]
    intro rule
    rw [hmem, List.mem_singleton]
    constructor
    · rintro ⟨_, tree, htree⟩
      exact (mem_derivations_topErrands.1 htree).1
    · rintro rfl
      exact ⟨⟨_, production_topErrands, rfl⟩, _, mem_derivations_topErrands.2 ⟨rfl, rfl⟩⟩
  refine ⟨hrules, ?_⟩
  rw [hresult, hrules]
  rfl

/-! ## Ranking -/

/-- Every candidate has the best score of all derivations by its production, and the candidate that is
selected is the first that no other is better than. -/
theorem parse_ranks {g : Grammar} (hg : g.Built) (status : Nat → Status) (sentence : Sentence)
    (conf : Confidence) :
    let grammar := g.withStatuses status
    let a := (parse grammar sentence conf).state
    (∀ id ∈ a.candidates, ∃ s, a.chart.states[id]? = some s
        ∧ IsLeast (Tree.score grammar '' grammar.derivations sentence.toWords s.item.rule) s.score)
      ∧ a.candidates.Pairwise (· < ·)
      ∧ (a.candidates = [] → a.selected = none)
      ∧ (a.candidates ≠ [] → ∃ k best, a.selected = some k ∧ a.score? (some (k : Int)) = some best
        ∧ ∀ (i : Nat) (score : Score), a.score? (some (i : Int)) = some score →
          best ≤ score ∧ (i < k → best < score)) := by
  intro grammar a
  have hcoherent : grammar.Coherent := hg.coherent.withStatuses status
  rcases charted_or_uncharted hcoherent sentence conf with hcharted | huncharted
  · refine ⟨fun id hid => hcharted.isLeast_score hcoherent hid, ?_, ?_, ?_⟩
    · rw [hcharted.candidates]
      exact pairwise_covering _ _
    · intro hnil
      rw [hcharted.selected, if_pos hnil]
    · intro hne
      obtain ⟨best, hbest, hle, hlt⟩ := firstBest_scores hcharted.exists_state hne
      -- every candidate has a state, so the scores stand at the places of the candidates
      have hscore : ∀ i : Nat, a.scores[i]? = a.score? (some (i : Int)) :=
        getElem?_filterMap_candidates _ hcharted.exists_state
      refine ⟨bestOf a.scores, best, by rw [hcharted.selected, if_neg hne], ?_, ?_⟩
      · rw [← hscore]
        exact hbest
      · intro i score hi
        rw [← hscore] at hi
        exact ⟨hle score (List.mem_of_getElem? hi), fun hlt' => hlt i score hlt' hi⟩
  -- without a chart there are no candidates
  · have hnil : a.candidates = [] := huncharted.candidates
    refine ⟨fun id hid => ?_, ?_, fun _ => huncharted.selected, fun hne => absurd hnil hne⟩
    · rw [hnil] at hid
      cases hid
    · rw [hnil]
      exact .nil

/-- The only derivation is selected, and its score counts the word that the wildcard took, the run
it stands in and the rule. -/
theorem parse_ranks_errand :
    ∃ k : Nat, (parse topErrands (.words ["Go", "home"]) .absent).state.selected = some k
      ∧ (parse topErrands (.words ["Go", "home"]) .absent).state.score? (some k)
        = some ⟨1, 1, 1⟩ := by
  obtain ⟨hleast, _, _, hselected⟩ :=
    parse_ranks built_errands (fun _ => .top) (.words ["Go", "home"]) .absent
  obtain ⟨_, hmem, _⟩ := exists_candidate_topErrands
  obtain ⟨k, best, hk, hbest, _⟩ := hselected (List.ne_nil_of_mem hmem)
  refine ⟨k, hk, ?_⟩
  rw [hbest, Option.some.injEq]
  rw [score?, Option.map_eq_some_iff, candidate?_natCast] at hbest
  obtain ⟨s, hs, rfl⟩ := hbest
  obtain ⟨id, hid, hs⟩ := Option.bind_eq_some_iff.1 hs
  -- the least score is that of the only derivation
  obtain ⟨s', hs', ⟨tree, htree, hscore⟩, _⟩ := hleast id (List.mem_of_getElem? hid)
  rw [hs, Option.some.injEq] at hs'
  rw [hs', ← hscore, (mem_derivations_topErrands.1 htree).2, Tree.score_node,
    Grammar.stepsAt_eq production_topErrands]
  rfl

/-! ## Pointers -/

/-- The pointers of every state describe a derivation of what it covers. Following them back visits
one state for each number of matched steps, all of the same production and start; each is the one
before it, advanced over a word that the step accepts or over a finished state of a usable production
that the step names; pointers never go round in circles; and the tree that is read back derives what
the state covers and has its score. -/
theorem parse_points_back {g : Grammar} (hg : g.Built) (status : Nat → Status) (sentence : Sentence)
    (conf : Confidence) :
    let grammar := g.withStatuses status
    let c := (parse grammar sentence conf).state.chart
    (∀ (id : Nat) (s : ChartState), c.states[id]? = some s →
        (c.trail s).getLast? = some s
          ∧ (c.trail s).map (·.item.dot) = List.range (s.item.dot + 1)
          ∧ (∀ q ∈ c.trail s, q.item.rule = s.item.rule ∧ q.item.start = s.item.start)
          ∧ (c.trail s).IsChain (c.Follows grammar sentence.toWords)
          ∧ grammar.Expands sentence.toWords ((grammar.stepsAt s.item.rule).take s.item.dot)
            s.item.start s.item.stop (c.tree s).parts
          ∧ (c.tree s).score grammar = s.score)
      ∧ ∀ id, ¬ Relation.TransGen c.Points id id := by
  intro grammar c
  have hcoherent : grammar.Coherent := hg.coherent.withStatuses status
  rcases charted_or_uncharted hcoherent sentence conf with hcharted | huncharted
  · have hc := hcharted.saturated hcoherent
    have hwords := words_ofWords grammar sentence.toWords
    refine ⟨fun id s hs => ?_, hc.acyclic_points⟩
    have htraced := hc.traced hs
    obtain ⟨before, hbefore⟩ := Chart.exists_trail_eq c s
    refine ⟨by rw [hbefore, List.getLast?_concat], htraced.dots_trail,
      htraced.eq_of_mem_trail, htraced.isChain_trail hc.wellFormed hwords, ?_,
      htraced.score_tree hc⟩
    rw [htraced.tree_eq hc]
    exact htraced.expands hc hwords
  -- an empty chart has no states and no pointers
  · have hchart : c = {} := huncharted.chart
    rw [hchart]
    constructor
    · intro id s hs
      simp at hs
    · intro id hcycle
      obtain ⟨_, _, s, hs, _⟩ := Relation.TransGen.tail'_iff.1 hcycle
      simp at hs

/-- The trail of the candidate moves its dot over the two steps, one at a time, and its score is
that of the tree that is read back. -/
theorem parse_points_back_errand :
    ∃ (id : Nat) (s : ChartState),
      (parse topErrands (.words ["Go", "home"]) .absent).state.chart.states[id]? = some s
      ∧ ((parse topErrands (.words ["Go", "home"]) .absent).state.chart.trail s).map (·.item.dot)
        = [0, 1, 2]
      ∧ ((parse topErrands (.words ["Go", "home"]) .absent).state.chart.tree s).score topErrands
        = s.score := by
  obtain ⟨id, _, s, hs, hitem⟩ := exists_candidate_topErrands
  have hback := parse_points_back built_errands (fun _ => .top) (.words ["Go", "home"]) .absent
  obtain ⟨_, hdots, _, _, _, hscore⟩ := hback.1 id s hs
  rw [hitem] at hdots
  exact ⟨id, s, hs, hdots, hscore⟩

end Analysis

end Utterance
