import Mathlib.Data.List.Perm.Subperm
import Utterance.Proofs.Parse

/-!
# Termination of parsing

Filling a chart works off one list of pending ways. An improved state puts the ways that follow from
it in front, each of which may improve a further state, and in grammars with cycles this can lead back
to where it began. Yet it comes to an end: no more items turn up than fit into grammar and sentence,
and a state that is improved again and again has ever better scores. So every way that is taken up is
worked off with all that follows from it, every position is left behind, and the run halts.
-/

namespace Utterance

namespace Run

/-! ## Finitely many items -/

/-- There are no more states than items that fit: the items of the states are all different, and all
of them fit. -/
theorem Reached.size_le {t : Task} (hg : t.grammar.Coherent) {r : Run} (h : Reached t r) :
    r.chart.states.size ≤ t.items.length := by
  have hwell := (h.placed hg).wellFormed
  have hget : ∀ {i : Nat} {item : Item}, (r.chart.states.toList.map (·.item))[i]? = some item →
      ∃ s, r.chart.states[i]? = some s ∧ s.item = item := by
    intro i item hi
    rw [List.getElem?_map, Option.map_eq_some_iff] at hi
    obtain ⟨s, hs, hitem⟩ := hi
    exact ⟨s, by simpa using hs, hitem⟩
  -- an item has one state at most
  have hnodup : (r.chart.states.toList.map (·.item)).Nodup := by
    rw [List.nodup_iff_getElem?_ne_getElem?]
    intro i j hij hj heq
    have hitem := List.getElem?_eq_getElem hj
    obtain ⟨s, hs, hsitem⟩ := hget (heq.trans hitem)
    obtain ⟨s', hs', hsitem'⟩ := hget hitem
    have hsame : i = j := hwell.eq_of_item hs hs' (by rw [hsitem, hsitem'])
    omega
  have hsubset : r.chart.states.toList.map (·.item) ⊆ t.items := by
    intro item hitem
    obtain ⟨i, hi⟩ := List.getElem?_of_mem hitem
    obtain ⟨s, hs, rfl⟩ := hget hi
    exact Task.mem_items_of_fits (hwell.proper hs).fits
  simpa using (hnodup.subperm hsubset).length_le

/-! ## Steps that come closer to the end -/

/-- A step leaves every state as it was or improves it. Only one kind of step improves a state, and
it does so only where the new score is better. -/
theorem Placed.extends_step {t : Task} {r : Run} (h : Placed t r) :
    r.chart.Extends (r.step t).chart := by
  generalize hr' : r.step t = r'
  have hmove : Move t r r' := hr' ▸ move_step t r
  cases hmove with
  | settle _ _ => exact Chart.Extends.refl _
  | add _ _ _ _ => exact Chart.extends_insert t r.chart _
  | improve _ _ hknown hold hbetter =>
    exact Chart.extends_improve hold (h.item_eq hknown hold) hbetter
  | pass _ _ _ _ => exact Chart.Extends.refl _
  | predict _ _ _ _ _ => exact Chart.extends_of_states_eq rfl
  | complete _ _ _ _ => exact Chart.Extends.refl _
  | advance _ _ => exact Chart.Extends.refl _

theorem halted_of_todo {t : Task} {r : Run} {way : Chart.Way} {rest : List Chart.Way}
    (h : r.todo = way :: rest) : r.halted t = false := by
  simp [halted, h]

/-- A step with pending ways works off the first and puts what follows from it in front. -/
theorem step_of_todo {t : Task} {r : Run} {way : Chart.Way} {rest : List Chart.Way}
    (h : r.todo = way :: rest) :
    ∃ chart more, r.step t = ⟨chart, more ++ rest, r.pos, r.taken⟩ := by
  obtain ⟨chart, todo, pos, taken⟩ := r
  simp only at h
  subst h
  exact ⟨_, _, rfl⟩

/-- Pending ways are worked off with all that follows from them. A way in front may put others
before itself, so this is not a count of steps but a fact about the agenda as a stack. -/
theorem exists_iterate_eq (t : Task) (ways rest : List Chart.Way) (r : Run)
    (h : r.todo = ways ++ rest) :
    ∃ n chart, (step t)^[n] r = ⟨chart, rest, r.pos, r.taken⟩ := by
  cases ways with
  | nil => exact ⟨0, r.chart, by rw [← show r.todo = rest from h]; rfl⟩
  | cons way ways =>
    -- what follows from the first way comes before the others, but closer to the end
    have htodo : r.todo = way :: (ways ++ rest) := h
    obtain ⟨chart, more, hstep⟩ := step_of_todo (t := t) htodo
    have hlower := distance_step t r (halted_of_todo htodo)
    have htodo : (r.step t).todo = (more ++ ways) ++ rest := by rw [hstep, List.append_assoc]
    obtain ⟨n, chart', hn⟩ := exists_iterate_eq t (more ++ ways) rest (r.step t) htodo
    refine ⟨n + 1, chart', ?_⟩
    rw [Function.iterate_succ_apply, hn, hstep]
termination_by r.distance t
decreasing_by exact hlower

/-- All states that end at the position of a run are taken up, those that turn up meanwhile as well.
The recursion is on the distance of the run from its end. -/
theorem exists_iterate_taken (t : Task) (r : Run) :
    ∃ n chart taken, (step t)^[n] r = ⟨chart, [], r.pos, taken⟩
      ∧ (chart.endingAt r.pos).size ≤ taken := by
  by_cases hdone : r.todo = [] ∧ (r.chart.endingAt r.pos).size ≤ r.taken
  · obtain ⟨htodo, htaken⟩ := hdone
    exact ⟨0, r.chart, r.taken, by rw [← htodo]; rfl, htaken⟩
  · have hgoing : r.halted t = false := by
      by_contra hhalted
      obtain ⟨htodo, htaken, _⟩ := halted_iff.1 (by simpa using hhalted)
      exact hdone ⟨htodo, htaken⟩
    have hlower := distance_step t r hgoing
    -- only when all states here are taken up does a step go on to the next position
    have hpos : (r.step t).pos = r.pos := by
      generalize hr' : r.step t = r'
      have hmove : Move t r r' := hr' ▸ move_step t r
      cases hmove with
      | advance htodo htaken => exact absurd ⟨htodo, htaken⟩ hdone
      | _ => rfl
    obtain ⟨n, chart, taken, hn, htaken⟩ := exists_iterate_taken t (r.step t)
    rw [hpos] at hn htaken
    exact ⟨n + 1, chart, taken, by rw [Function.iterate_succ_apply, hn], htaken⟩
termination_by r.distance t
decreasing_by exact hlower

/-- What brings a run to its end: items and scores are bounded, every step comes closer, every way that
is taken up is worked off, and every position is left behind. -/
structure Descends (t : Task) (r : Run) : Prop where
  size_le : r.chart.states.size ≤ t.items.length
  fits : ∀ way ∈ r.todo, ∀ s, r.chart.state? t way = some s → t.fits s.item = true
  improves : r.chart.Extends (r.step t).chart
  lowers : r.halted t = false → WellFoundedRelation.rel ((r.step t).distance t) (r.distance t)
  returns : ∀ way rest, r.todo = way :: rest →
    ∃ n chart, (step t)^[n + 1] r = ⟨chart, rest, r.pos, r.taken⟩
  passes : ∃ n chart taken, (step t)^[n] r = ⟨chart, [], r.pos, taken⟩
    ∧ (chart.endingAt r.pos).size ≤ taken

/-- All of this holds of every run that is met, as the invariant is kept by the steps that lead to
it. -/
theorem Reached.descends {t : Task} (hg : t.grammar.Coherent) {r : Run} (h : Reached t r) :
    Descends t r where
  size_le := h.size_le hg
  fits way hway s hs := ((h.placed hg).leads hg hway hs).2.fits
  improves := (h.placed hg).extends_step
  lowers := distance_step t r
  returns way rest htodo := by
    obtain ⟨chart, more, hstep⟩ := step_of_todo (t := t) htodo
    obtain ⟨n, chart', hn⟩ := exists_iterate_eq t more rest (r.step t) (by rw [hstep])
    refine ⟨n, chart', ?_⟩
    rw [Function.iterate_succ_apply, hn, hstep]
  passes := exists_iterate_taken t r

end Run

namespace Analysis

/-- Two heads, each of which stands for the other, and a word for the second. -/
def circle : Grammar :=
  let g := (Grammar.expand { dictation := 5, maxAlerts := 10 } "here" "<there>" "").grammar
  let g := (g.expand "there" "<here>" "").grammar
  (g.expand "there" "go" "").grammar

theorem built_circle : circle.Built :=
  (((Grammar.Built.empty 5 10).expand "here" "<there>" "").expand "there" "<here>" "").expand "there"
    "go" ""

/-- Parsing comes to an end: the run of every sentence halts with its chart, every run on the way comes
closer to that, and a parse returns a number unless the confidences cannot be read. -/
theorem parse_terminates {g : Grammar} (hg : g.Built) (status : Nat → Status)
    (sentence : Sentence) (conf : Confidence) :
    let grammar := g.withStatuses status
    let t := Task.ofWords grammar sentence.toWords
    (∃ n, ((Run.step t)^[n] (.begin t)).halted t = true
        ∧ ((Run.step t)^[n] (.begin t)).chart = t.chart)
      ∧ (∀ r, Run.Reached t r → Run.Descends t r)
      ∧ ((∃ read, conf.read sentence.toWords.length = .ok read) →
        ∃ k, (parse grammar sentence conf).result = .ok k) := by
  intro grammar t
  have hcoherent : grammar.Coherent := hg.coherent.withStatuses status
  refine ⟨?_, fun r hr => hr.descends hcoherent, ?_⟩
  -- finishing is stepping until the run halts
  · obtain ⟨n, hn⟩ := Run.exists_iterate_eq_finish t (.begin t)
    refine ⟨n, ?_, ?_⟩
    · rw [hn]
      exact Run.halted_finish t _
    · rw [hn]
      rfl
  · rintro ⟨read, hread⟩
    exact ⟨_, result_parse hcoherent hread⟩

/-- Two heads that lead to each other without a word do not keep the run from halting: going round
once more only makes a score worse, and a worse one changes nothing. -/
theorem parse_terminates_circle :
    let t := Task.ofWords (circle.withStatuses fun _ => .top) ["go"]
    (∃ n, ((Run.step t)^[n] (.begin t)).halted t = true)
      ∧ ∃ k, (parse t.grammar (.words ["go"]) .absent).result = .ok k := by
  obtain ⟨⟨n, hhalted, _⟩, _, hreturns⟩ :=
    parse_terminates built_circle (fun _ => .top) (.words ["go"]) .absent
  exact ⟨⟨n, hhalted⟩, hreturns ⟨_, rfl⟩⟩

end Analysis

end Utterance
