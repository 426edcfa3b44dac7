import Utterance.Proofs.Chart.Lookahead
import Utterance.Proofs.Parse.Correctness
import Utterance.Proofs.Parse.Selection

/-!
# Looking ahead changes no result

A parse that looks one word ahead and one that does not find the same. The chart of the first is that
of the second with the starts struck which the next word rules out, and with the remaining states
renumbered. Trees that are read back do not mention numbers of states, so candidates, scores, the
selection and the spelling are the same.
-/

namespace Utterance

/-! ## Renumbering -/

/-- A state with other numbers in its pointers. -/
def ChartState.renumber (f : Nat → Nat) (s : ChartState) : ChartState :=
  { s with prev := s.prev.map f, child := s.child.map f }

namespace Chart

/-- How many of the states before a number are not ruled out. -/
def rank (t : Task) (c : Chart) (id : Nat) : Nat :=
  (c.states.toList.take id).countP fun s => !t.isRuledOut s.item

/-- The states that are not ruled out, renumbered. -/
def pruned (t : Task) (c : Chart) : List ChartState :=
  (c.states.toList.filter fun s => !t.isRuledOut s.item).map (·.renumber (c.rank t))

section Pruned

variable {t : Task} {c c' : Chart}

/-- The place of a kept state, counted among the numbers instead of the states. -/
theorem rank_eq_countP_range {id : Nat} (h : id ≤ c.states.size) :
    c.rank t id = (List.range id).countP (c.keeps t) := by
  rw [rank]
  induction id with
  | zero => rfl
  | succ id ih =>
    have hget : c.states[id]? = some c.states[id] := by simp
    have hget' : c.states.toList[id]? = some c.states[id] := by simp
    rw [List.take_add_one, hget', List.range_succ, List.countP_append, List.countP_append,
      ih (Nat.le_of_succ_le h)]
    simp [keeps, hget, List.countP_cons]

/-- A kept number stands behind as many others as are kept before it. -/
theorem Pairs.eq_rank {i j : Nat} (h : Pairs (c.kept t) i j) : i = c.rank t j := by
  obtain ⟨s, hs, hkept⟩ := h.exists_state
  have hlt : j < c.states.size := (Array.getElem?_eq_some_iff.1 hs).1
  rw [rank_eq_countP_range (Nat.le_of_lt hlt)]
  -- in the list of all numbers, `j` comes after the numbers below it
  have hget : (List.range c.states.size)[j]? = some j := by simp [hlt]
  have hkeeps : c.keeps t j = true := by simp [keeps, hs, hkept]
  have hplace := Run.getElem?_filter_countP_take hget hkeeps
  rw [List.take_range, Nat.min_eq_left (Nat.le_of_lt hlt)] at hplace
  exact h.left_inj hplace

/-- A state of the first chart is one of the second, with its pointers renumbered. -/
theorem Alike.eq_renumber {s s' : ChartState} (h : Alike (c.kept t) s s') :
    s = s'.renumber (c.rank t) := by
  have hmap : ∀ {a b : Option Nat}, Option.Rel (Pairs (c.kept t)) a b → a = b.map (c.rank t) := by
    intro a b hab
    cases hab with
    | some hij => rw [Option.map_some, hij.eq_rank]
    | none => rfl
  obtain ⟨item, prev, child, score⟩ := s
  rw [ChartState.renumber, ← hmap h.prev, ← hmap h.child, ← h.item, ← h.score]

/-- The states of the first chart, one by one, are those of the second that are not ruled out,
renumbered. -/
theorem Prunes.states_eq (h : Prunes t c c') : c.states.toList = c'.pruned t := by
  have hlength : (c'.states.toList.filter fun s => !t.isRuledOut s.item).length
      = (c'.kept t).length := by
    have hrank := rank_eq_countP_range (t := t) (Nat.le_refl c'.states.size)
    rw [rank, List.take_of_length_le (by simp), List.countP_eq_length_filter,
      List.countP_eq_length_filter] at hrank
    exact hrank
  apply List.ext_getElem?
  intro i
  rw [pruned, List.getElem?_map, Array.getElem?_toList]
  -- place by place: either both lists have ended, or there is a kept number
  cases hj : (c'.kept t)[i]? with
  | none =>
    have hle : (c'.kept t).length ≤ i := by simpa using hj
    rw [Array.getElem?_eq_none (by rw [h.size]; exact hle),
      List.getElem?_eq_none (by rw [hlength]; exact hle)]
    rfl
  | some j =>
    obtain ⟨s, s', hs, hs', halike, hkept⟩ := h.exists_states hj
    have hget : c'.states.toList[j]? = some s' := by simpa using hs'
    -- as many kept states as stand before this one is its place among them
    have hplace := Run.getElem?_filter_countP_take (p := fun s => !t.isRuledOut s.item) hget
      (by simp [hkept])
    have hrank : i = c'.rank t j := Pairs.eq_rank hj
    rw [hs, hrank, rank, hplace, Option.map_some, ← halike.eq_renumber]

/-! ## The same trees -/

/-- Trails of paired states are paired, as the pointers that they follow are. The trails are
followed for the same number of steps, which is what the induction is on. -/
theorem Prunes.trailOf (h : Prunes t c c') (n : Nat) {s s' : ChartState}
    (halike : Alike (c'.kept t) s s') :
    List.Forall₂ (Alike (c'.kept t)) (c.trailOf n s) (c'.trailOf n s') := by
  induction n generalizing s s' with
  | zero => exact .cons halike .nil
  | succ n ih =>
    rw [Chart.trailOf, Chart.trailOf]
    have hprev := halike.prev
    generalize s.prev = prev at hprev ⊢
    generalize s'.prev = prev' at hprev ⊢
    cases hprev with
    | none => exact .cons halike .nil
    | some hij =>
      obtain ⟨p, p', hp, hp', halike', _⟩ := h.exists_states hij
      simp only [Option.bind_some, hp, hp']
      exact List.rel_append (ih halike') (.cons halike .nil)

/-- So are the parts that their steps were matched by. -/
theorem Prunes.children (h : Prunes t c c') {s s' : ChartState}
    (halike : Alike (c'.kept t) s s') :
    List.Forall₂ (Option.Rel (Pairs (c'.kept t))) (c.children s) (c'.children s') := by
  rw [Chart.children, Chart.children, List.forall₂_map_left_iff, List.forall₂_map_right_iff,
    Chart.trail, Chart.trail, halike.item]
  apply List.Forall₂.imp _ (List.forall₂_drop 1 (h.trailOf _ halike))
  exact fun q q' hq => hq.child

/-- A tree does not depend on the numbers of the states that it is read back from. The induction is
on the number of nodes, since a part that is read back has fewer. -/
theorem Prunes.tree_eq (h : Prunes t c c') {s s' : ChartState} (halike : Alike (c'.kept t) s s') :
    c.tree s = c'.tree s' := by
  generalize hnodes : s'.score.nodes = nodes
  -- parts that are read back have fewer nodes
  induction nodes using Nat.strongRecOn generalizing s s' with
  | _ nodes ih =>
    rw [Chart.tree, Chart.tree, halike.item, halike.score, Tree.node.injEq]
    refine ⟨rfl, rfl, rfl, ?_⟩
    rw [← List.forall₂_eq_eq_eq, List.forall₂_map_left_iff, List.forall₂_map_right_iff]
    apply List.Forall₂.imp _ (h.children halike)
    intro child child' hchild
    cases hchild with
    | none => rfl
    | some hij =>
      obtain ⟨p, p', hp, hp', halike', _⟩ := h.exists_states hij
      simp only [Option.bind_some, hp, hp', halike'.score]
      split
      · rename_i hlt
        exact ih _ (hnodes ▸ hlt) halike' rfl
      · rfl

end Pruned

end Chart

namespace Analysis

/-! ## The same analyses -/

/-- Two analyses are the same, but for the ruled-out starts in the chart of the second. -/
structure Twins (t : Task) (a a' : Analysis) : Prop where
  chart : Chart.Prunes t a.chart a'.chart
  candidates : List.Forall₂ (Chart.Pairs (a'.chart.kept t)) a.candidates a'.candidates
  words : a.words = a'.words
  selected : a.selected = a'.selected
  spelling : a.spelling = a'.spelling

section Twins

variable {t : Task} {a a' : Analysis}

/-- What is read off the candidates without looking at numbers is the same in both analyses. The
candidates are paired in order, and paired states differ in their pointers only. -/
theorem Twins.filterMap_eq {α : Type} (h : Twins t a a') {f : ChartState → α}
    (hf : ∀ s s', Chart.Alike (a'.chart.kept t) s s' → f s = f s') :
    (a.candidates.filterMap fun id => (a.chart.states[id]?).map f)
      = a'.candidates.filterMap fun id => (a'.chart.states[id]?).map f := by
  have hcandidates := h.candidates
  generalize a.candidates = ids at hcandidates ⊢
  generalize a'.candidates = ids' at hcandidates ⊢
  induction hcandidates with
  | nil => rfl
  | cons hij _ ih =>
    obtain ⟨s, s', hs, hs', halike, _⟩ := h.chart.exists_states hij
    simp [hs, hs', hf s s' halike, ih]

theorem Twins.rules_eq (h : Twins t a a') : a.rules = a'.rules :=
  h.filterMap_eq fun s s' halike => by rw [halike.item]

theorem Twins.scores_eq (h : Twins t a a') : a.scores = a'.scores :=
  h.filterMap_eq fun _ _ halike => halike.score

/-- A candidate that is asked for by its place is alike in both analyses, or absent in both. -/
theorem Twins.candidate? (h : Twins t a a') (n : Nat) :
    Option.Rel (Chart.Alike (a'.chart.kept t)) (a.candidate? (some n)) (a'.candidate? (some n)) := by
  rw [candidate?_natCast, candidate?_natCast]
  have hlength := h.candidates.length_eq
  by_cases hn : n < a.candidates.length
  · have hn' : n < a'.candidates.length := hlength ▸ hn
    have hij := h.candidates.get hn hn'
    obtain ⟨s, s', hs, hs', halike, _⟩ := h.chart.exists_states hij
    simp only [List.get_eq_getElem] at hs hs'
    simp only [List.getElem?_eq_getElem hn, List.getElem?_eq_getElem hn', Option.bind_some, hs, hs']
    exact .some halike
  · rw [List.getElem?_eq_none (by omega), List.getElem?_eq_none (by omega)]
    exact .none

/-- Selecting the same candidate spells the same tree, so everything that depends on it is the same. -/
theorem Twins.select (h : Twins t a a') (g : Grammar) (n : Nat) :
    Twins t (a.select g n).state (a'.select g n).state
      ∧ (a.select g n).result = (a'.select g n).result := by
  have hcandidate := h.candidate? n
  cases hfound : a.candidate? (some (n : Int)) with
  | none =>
    rw [hfound] at hcandidate
    have hfound' : a'.candidate? (some (n : Int)) = none := by
      generalize a'.candidate? (some (n : Int)) = found' at hcandidate
      cases hcandidate
      rfl
    simp only [Analysis.select, hfound, hfound']
    exact ⟨h, by rw [h.selected]⟩
  | some s =>
    rw [hfound] at hcandidate
    -- the other run has a candidate with this number as well
    obtain ⟨s', hfound', halike⟩ : ∃ s', a'.candidate? (some (n : Int)) = some s'
        ∧ Chart.Alike (a'.chart.kept t) s s' := by
      generalize a'.candidate? (some (n : Int)) = found' at hcandidate
      cases hcandidate with
      | some halike => exact ⟨_, rfl, halike⟩
    rw [select_of_candidate? hfound, select_of_candidate? hfound', h.chart.tree_eq halike, h.words]
    exact ⟨⟨h.chart, h.candidates, rfl, rfl, rfl⟩, rfl⟩

/-- The states that cover a sentence are finished, so none of them is ruled out. -/
theorem forall₂_covering {c c' : Chart} (h : Chart.Prunes t c c') :
    List.Forall₂ (Chart.Pairs (c'.kept t)) (covering t c) (covering t.blind c') := by
  apply h.idsWhere_of_imp (p := fun i => covers t { item := i })
  intro i hi
  simp only [covers, Bool.and_eq_true] at hi
  exact Task.not_isRuledOut_of_isFinished hi.1.2

end Twins

/-! ## Parsing without looking ahead -/

/-- Before anything is selected, the two analyses differ in the chart only. -/
theorem twins_unselected {g : Grammar} (hg : g.Coherent) (htidy : g.Tidy) (words : List String)
    (confidences : List (Option Int)) :
    Twins (Task.ofWords g words) (unselected (Task.ofWords g words) words confidences)
      (unselected (Task.ofWords g words false) words confidences) := by
  have hprunes := Task.prunes_chart (t := Task.ofWords g words) rfl hg htidy
  exact ⟨hprunes, forall₂_covering hprunes, rfl, rfl, rfl⟩

/-- Parsing with and without looking ahead leads to analyses that differ in the chart only. Both
stop early under the same conditions, and both select the first best of the same scores. -/
theorem twins_parseWith {g : Grammar} (hg : g.Coherent) (htidy : g.Tidy) (sentence : Sentence)
    (conf : Confidence) :
    Twins (Task.ofWords g sentence.toWords) (parse g sentence conf).state
        (parseWith false g sentence conf).state
      ∧ (parse g sentence conf).result = (parseWith false g sentence conf).result := by
  -- where nothing is charted, there is nothing to compare
  have hempty : Chart.Prunes (Task.ofWords g sentence.toWords) {} {} :=
    ⟨rfl, rfl, fun {i j s'} _ hs' => by simp at hs'⟩
  cases hread : conf.read sentence.toWords.length with
  | error e =>
    simp only [parse, parseWith, hread, and_true]
    exact ⟨hempty, .nil, rfl, rfl, rfl⟩
  | ok read =>
    cases hsome : sentence.toWords.isEmpty || g.productions.isEmpty with
    | true =>
      simp only [parse, parseWith, hread, hsome, if_true, and_true]
      exact ⟨hempty, .nil, rfl, rfl, rfl⟩
    | false =>
      obtain ⟨hstate, hresult⟩ := parseWith_of_read true hread hsome
      obtain ⟨hstate', hresult'⟩ := parseWith_of_read false hread hsome
      rw [parse, hstate, hresult, hstate', hresult']
      have htwins := twins_unselected hg htidy sentence.toWords read.1
      generalize unselected (Task.ofWords g sentence.toWords) sentence.toWords read.1 = a
        at htwins ⊢
      generalize unselected (Task.ofWords g sentence.toWords false) sentence.toWords read.1 = a'
        at htwins ⊢
      have hlength := htwins.candidates.length_eq
      have hnone : a.candidates.isEmpty = a'.candidates.isEmpty := by
        rw [Bool.eq_iff_iff, List.isEmpty_iff_length_eq_zero, List.isEmpty_iff_length_eq_zero,
          hlength]
      rw [hnone, htwins.scores_eq, hlength]
      split
      · exact ⟨htwins, rfl⟩
      · obtain ⟨hselect, hselected⟩ := htwins.select g (bestOf a'.scores)
        exact ⟨hselect, by rw [hselected]⟩

/-- Looking ahead changes no result. The states of the chart are those that are found without looking
ahead, in the same order and renumbered, less the starts by a fixed word that is not the next one; and
the parse returns the same number, the same productions in the same order, the same scores, the same
selection and the same spelling. -/
theorem parse_looks_ahead {g : Grammar} (hg : g.Built) (status : Nat → Status)
    (sentence : Sentence) (conf : Confidence) :
    let grammar := g.withStatuses status
    let o := parse grammar sentence conf
    let o' := parseWith false grammar sentence conf
    o.state.chart.states.toList
        = o'.state.chart.pruned (Task.ofWords grammar sentence.toWords)
      ∧ o.result = o'.result
      ∧ o.state.rules = o'.state.rules
      ∧ o.state.scores = o'.state.scores
      ∧ o.state.selected = o'.state.selected
      ∧ o.state.spelling = o'.state.spelling := by
  intro grammar o o'
  have hcoherent : grammar.Coherent := hg.coherent.withStatuses status
  have htidy : grammar.Tidy := hg.tidy.withStatuses status
  -- the two runs are in step up to the end, so all that is read off their charts agrees
  obtain ⟨htwins, hresult⟩ := twins_parseWith hcoherent htidy sentence conf
  exact ⟨htwins.chart.states_eq, hresult, htwins.rules_eq, htwins.scores_eq, htwins.selected,
    htwins.spelling⟩

/-- Without looking ahead, too, the only candidate is the production that derives the sentence. -/
theorem parse_looks_ahead_errand :
    (parseWith false topErrands (.words ["Go", "home"]) .absent).state.rules = [0]
      ∧ (parseWith false topErrands (.words ["Go", "home"]) .absent).result = .ok 1 := by
  obtain ⟨_, hresult, hrules, _⟩ :=
    parse_looks_ahead built_errands (fun _ => .top) (.words ["Go", "home"]) .absent
  have hcoherent : topErrands.Coherent := built_errands.coherent.withStatuses _
  have hfound : (parse topErrands (.words ["Go", "home"]) .absent).state.rules = [0] := by
    apply List.perm_singleton.1
    rw [List.perm_ext_iff_of_nodup (charted_topErrands.nodup_rules hcoherent)
      (List.nodup_singleton 0)]
    intro rule
    rw [charted_topErrands.mem_rules hcoherent, List.mem_singleton]
    constructor
    · rintro ⟨_, tree, htree⟩
      exact (mem_derivations_topErrands.1 htree).1
    · rintro rfl
      exact ⟨⟨_, production_topErrands, rfl⟩, _, mem_derivations_topErrands.2 ⟨rfl, rfl⟩⟩
  refine ⟨by rw [← hrules]; exact hfound, ?_⟩
  rw [← hresult]
  show (parse topErrands (.words ["Go", "home"]) .absent).result = .ok 1
  rw [charted_topErrands.result, ← charted_topErrands.length_rules, hfound]
  rfl

end Analysis

end Utterance
