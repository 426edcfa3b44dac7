import Utterance.Proofs.Chart.Closure

/-!
# Finished charts

What the invariants of a run come to at its end. Nothing is pending then and every state has been
taken up, so each state is exactly what its pointers say, and each way that the chart offers is
honoured by a state. All that is said about parsing rests on these six facts.
-/

namespace Utterance

/-- Every state comes from a valid way, and every way that the states open up is honoured. -/
structure Chart.Saturated (t : Task) (c : Chart) : Prop where
  wellFormed : c.WellFormed t
  backed : ∀ {id : Nat} {s : ChartState}, c.states[id]? = some s →
    ∃ way, c.Valid t way ∧ c.state? t way = some s
  tops : ∀ {rule : Nat} {p : Production}, t.grammar.productions[rule]? = some p → p.status = .top →
    mayStart t 0 p = true → c.Honoured t (.start rule 0)
  starts : ∀ {id rule : Nat} {s : ChartState} {p : Production}, c.states[id]? = some s →
    t.grammar.productions[rule]? = some p → t.waitsFor s.item (Text.lower p.head) = true →
    mayStart t s.item.stop p = true → c.Honoured t (.start rule s.item.stop)
  scans : ∀ {id : Nat} {s : ChartState}, c.states[id]? = some s → c.Honoured t (.scan id)
  joins : ∀ {id done : Nat}, c.Valid t (.join id done) → c.Honoured t (.join id done)

/-- The chart at the end of a run is saturated. Nothing is pending there, so what backs a state has
its score, and what is due is honoured. -/
theorem Run.Reached.saturated {t : Task} (hg : t.grammar.Coherent) {r : Run} (h : Reached t r)
    (hhalted : r.halted t = true) : r.chart.Saturated t := by
  obtain ⟨htodo, hdone, hlength⟩ := halted_iff.1 hhalted
  have hplaced := h.placed hg
  have hclosed := h.closed hg
  have hpos : r.pos = t.length := Nat.le_antisymm hplaced.pos_le hlength
  -- every state has been taken up: it ends at an earlier position, or is among those of the last
  -- one
  have htaken : ∀ {id : Nat} {s : ChartState}, r.chart.states[id]? = some s → r.Taken id := by
    intro id s hs
    refine ⟨s, hs, ?_⟩
    rcases Nat.lt_or_eq_of_le (hplaced.stop_le hs) with hlt | hstop
    · exact .inl hlt
    · right
      rw [List.take_of_length_le (by simpa using hdone)]
      exact hplaced.wellFormed.mem_endingAt.2 ⟨s, hs, hstop⟩
  -- nothing is pending, so what is due is honoured
  have hhonoured : ∀ {way : Chart.Way}, r.Due t way → r.chart.Honoured t way := by
    intro way hdue
    exact (hclosed.due way hdue).resolve_right (by simp [htodo])
  refine ⟨hplaced.wellFormed, ?_, ?_, ?_, ?_, ?_⟩
  · intro id s hs
    obtain ⟨way, score, hvalid, hleads, hscore⟩ := h.allBacked hg id s hs
    have heq : score = s.score := hscore.resolve_right (by simp [htodo])
    subst heq
    exact ⟨way, hvalid, hleads⟩
  · intro rule p hp htop hstart
    have hdue : r.Due t (.start rule 0) :=
      ⟨p, hp, hstart, hclosed.tops p.head (hg.head_mem_topHeads hp htop)⟩
    exact hhonoured hdue
  · intro id rule s p hs hp hwaits hstart
    have hdue : r.Due t (.start rule s.item.stop) :=
      ⟨p, hp, hstart, hclosed.foreseen id s _ (htaken hs) hs hwaits⟩
    exact hhonoured hdue
  -- a scan is due as soon as the run has gone beyond the position of the state
  · intro id s hs
    rcases Nat.lt_or_eq_of_le (hplaced.stop_le hs) with hlt | hstop
    · have hdue : r.Due t (.scan id) := ⟨s, hs, hlt⟩
      exact hhonoured hdue
    -- behind the last word there is nothing to scan
    · intro q hq
      obtain ⟨s', _, word, hs', _, hword, _⟩ := Chart.state?_scan.1 hq
      rw [hs, Option.some.injEq] at hs'
      subst hs'
      rw [hstop, hpos] at hword
      simp [Task.length] at hword
  · intro id done hvalid
    have ⟨_, d, _, hd, _⟩ := hvalid
    have hdue : r.Due t (.join id done) := ⟨htaken hd, hvalid⟩
    exact hhonoured hdue

theorem Task.saturated_chart {t : Task} (hg : t.grammar.Coherent) : t.chart.Saturated t :=
  (Run.Reached.begin.finish).saturated hg (Run.halted_finish t _)

end Utterance
