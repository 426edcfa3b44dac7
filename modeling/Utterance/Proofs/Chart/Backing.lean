import Utterance.Proofs.Chart.Shape

/-!
# Pointers and scores of a run

The pointers of a state name a way to it. When a part of a derivation is improved, the scores of the
wholes that contain it lag behind for a while; but then the way that brings the whole up to date is
pending. So once nothing is pending, every score is exactly that of the way its pointers name.
-/

namespace Utterance

namespace Chart

/-- The pointers of a state name a valid way to it. The way leads to the score of the state, or to a
better one and is pending. -/
def Backed (t : Task) (c : Chart) (todo : List Way) (s : ChartState) : Prop :=
  ∃ way score, c.Valid t way ∧ c.state? t way = some { s with score }
    ∧ (score = s.score ∨ score ≤ s.score ∧ way ∈ todo)

/-- A state that a way leads to is backed by it. -/
theorem backed_of_leads {t : Task} {c : Chart} {way : Way} {s : ChartState} (todo : List Way)
    (hvalid : c.Valid t way) (hs : c.state? t way = some s) : c.Backed t todo s :=
  ⟨way, s.score, hvalid, hs, .inl rfl⟩

/-- Without pending ways a state is backed by what is already there, so it stays backed in every
chart with the same states, whatever becomes pending later. -/
theorem Backed.of_states_eq {t : Task} {c c' : Chart} (h : c'.states = c.states) {s : ChartState}
    (hs : c.Backed t [] s) (todo : List Way) : c'.Backed t todo s := by
  obtain ⟨way, score, hvalid, hleads, htight⟩ := hs
  have hext := (extends_of_states_eq h).retains
  have hsame : c'.state? t way = c.state? t way := state?_congr fun id _ => by rw [h]
  refine ⟨way, score, hvalid.mono hext, by rw [hsame]; exact hleads, .inl ?_⟩
  rcases htight with heq | ⟨_, hmem⟩
  · exact heq
  · cases hmem

/-- A whole is joined anew with the score of its improved part. -/
theorem state?_join_improve {t : Task} {c : Chart} {id w : Nat} {old s q : ChartState} {score : Score}
    (hold : c.states[id]? = some old) (hitem : s.item = old.item) (hw : w ≠ id)
    (hleads : c.state? t (.join w id) = some { q with score }) :
    ∃ before, score = before + old.score
      ∧ (c.improve id s).state? t (.join w id) = some { q with score := before + s.score } := by
  obtain ⟨ws, d, hws, hd, hadvanced⟩ := state?_join.1 hleads
  rw [hold, Option.some.injEq] at hd
  subst hd
  simp only [advanced, ChartState.mk.injEq] at hadvanced
  obtain ⟨hitem_q, hprev, hchild, hscore⟩ := hadvanced
  refine ⟨ws.score, hscore, state?_join.2 ⟨ws, s, ?_, getElem?_improve_self hold s, ?_⟩⟩
  -- the state before the part is another one
  · rw [getElem?_improve_of_ne hold s hw]
    exact hws
  · simp only [advanced, ChartState.mk.injEq]
    rw [hitem]
    exact ⟨hitem_q, hprev, hchild, trivial⟩

end Chart

namespace Run

/-- Every state of the chart is backed. -/
def AllBacked (t : Task) (r : Run) : Prop :=
  ∀ (id : Nat) (s : ChartState), r.chart.states[id]? = some s → r.chart.Backed t r.todo s

section Step

variable {t : Task} {r : Run} {way : Chart.Way} {rest : List Chart.Way}

/-- A way that changes nothing may be taken off the agenda: a state that it was pending for is
already as good as what it leads to. -/
theorem backed_settle (hg : t.grammar.Coherent) (hplaced : Placed t r) (h : AllBacked t r)
    (htodo : r.todo = way :: rest)
    (hsettled : ∀ s, r.chart.state? t way = some s → t.fits s.item = true →
      ∃ id, r.chart.index[s.item]? = some id
        ∧ ∀ old, r.chart.states[id]? = some old → old.score ≤ s.score) :
    AllBacked t ⟨r.chart, rest, r.pos, r.taken⟩ := by
  intro id q hq
  obtain ⟨way', score, hvalid, hleads, heq | ⟨hle, hmem⟩⟩ := h id q hq
  · exact ⟨way', score, hvalid, hleads, .inl heq⟩
  rw [htodo] at hmem
  rcases List.mem_cons.1 hmem with rfl | hmem
  -- the way that was pending for this state was worked off: the state is as good already
  · have hproper := (hplaced.leads hg (mem_todo htodo) hleads).2
    obtain ⟨id', hindex, hall⟩ := hsettled _ hleads hproper.fits
    have hid : r.chart.index[q.item]? = some id := hplaced.wellFormed.index.2 ⟨q, hq, rfl⟩
    rw [show ({ q with score } : ChartState).item = q.item from rfl, hid,
      Option.some.injEq] at hindex
    subst hindex
    exact ⟨way', score, hvalid, hleads, .inl (le_antisymm hle (hall q hq))⟩
  · exact ⟨way', score, hvalid, hleads, .inr ⟨hle, hmem⟩⟩

/-- A new state is backed by the way that leads to it. The older states are backed by the ways that
they had, none of which was pending on this one. -/
theorem backed_add (hplaced : Placed t r) (h : AllBacked t r) (htodo : r.todo = way :: rest)
    {s : ChartState} (hleads : r.chart.state? t way = some s)
    (hnew : r.chart.index[s.item]? = none) :
    AllBacked t ⟨r.chart.insert t s, rest, r.pos, r.taken⟩ := by
  have hext := (Chart.extends_insert t r.chart s).retains
  intro id q hq
  simp only [Chart.getElem?_insert] at hq
  split at hq
  · cases hq
    have hvalid := hplaced.valid way (mem_todo htodo)
    exact Chart.backed_of_leads _ (hvalid.mono hext) (Chart.state?_insert_of_some hleads s)
  · obtain ⟨way', score, hvalid, hleads', hscore⟩ := h id q hq
    -- an older state is backed by the way it had
    refine ⟨way', score, hvalid.mono hext, Chart.state?_insert_of_some hleads' s, ?_⟩
    rcases hscore with heq | ⟨hle, hmem⟩
    · exact .inl heq
    · rw [htodo] at hmem
      rcases List.mem_cons.1 hmem with rfl | hmem
      -- the item of a state that is there is not new
      · rw [hleads, Option.some.injEq] at hleads'
        have hid : r.chart.index[s.item]? = some id :=
          hplaced.wellFormed.index.2 ⟨q, hq, by rw [hleads']⟩
        rw [hnew] at hid
        cases hid
      · exact .inr ⟨hle, hmem⟩

/-- An improved state is backed by the way that improved it. A state that was joined from it has now
too high a score; the way to it is pending again, since the completions of the improved state have
been put on the agenda. -/
theorem backed_improve (hg : t.grammar.Coherent) (hplaced : Placed t r) (h : AllBacked t r)
    (htodo : r.todo = way :: rest) {s old : ChartState} {id : Nat}
    (hleads : r.chart.state? t way = some s) (hold : r.chart.states[id]? = some old)
    (hitem : s.item = old.item) (hbetter : s.score < old.score) :
    AllBacked t
      ⟨r.chart.improve id s, (r.chart.improve id s).completions t id ++ rest, r.pos, r.taken⟩ := by
  have hway : way ∈ r.todo := mem_todo htodo
  have hext := (Chart.extends_improve hold hitem hbetter).retains
  intro j q hq
  simp only at hq
  by_cases hj : j = id
  -- the improved state is backed by the way that improved it, which does not depend on it
  · subst hj
    rw [Chart.getElem?_improve_self hold, Option.some.injEq] at hq
    subst hq
    have hreads := hplaced.not_reads hg hway hleads hold hitem hbetter
    refine Chart.backed_of_leads _ ((hplaced.valid way hway).mono hext) ?_
    rw [Chart.state?_improve_of_not_reads hold s hreads]
    exact hleads
  · rw [Chart.getElem?_improve_of_ne hold s hj] at hq
    obtain ⟨way', score, hvalid, hleads', hscore⟩ := h j q hq
    -- another state may have the improved one as a part
    by_cases hreads : way'.Reads id
    · have hstop : q.item.stop ≤ old.item.stop := by
        rw [← hitem, (hplaced.leads hg hway hleads).1]
        exact hplaced.stop_le hq
      have hleadsTo : r.chart.LeadsTo q.item.stop way' := (Chart.leadsTo_iff hleads').2 rfl
      obtain ⟨w, hw, rfl⟩ :=
        hvalid.eq_join_of_reads hg hplaced.wellFormed hold hleadsTo hstop hreads
      -- the improved state is the last part of `q`, which is now to be joined anew
      obtain ⟨before, hscore_eq, hjoin⟩ := Chart.state?_join_improve hold hitem hw hleads'
      have hle : before + s.score ≤ q.score := by
        calc before + s.score ≤ before + old.score := add_le_add_right (le_of_lt hbetter) _
          _ = score := hscore_eq.symm
          _ ≤ q.score := by
              rcases hscore with heq | ⟨hle, _⟩
              · exact le_of_eq heq
              · exact hle
      have hwell := hplaced.wellFormed.improve hold hitem
      have hmem : Chart.Way.join w id ∈ (r.chart.improve id s).completions t id :=
        hwell.mem_completions.2 ⟨w, rfl, hvalid.mono hext⟩
      exact ⟨.join w id, _, hvalid.mono hext, hjoin, .inr ⟨hle, List.mem_append_left _ hmem⟩⟩
    · refine ⟨way', score, hvalid.mono hext, ?_, ?_⟩
      · rw [Chart.state?_improve_of_not_reads hold s hreads]
        exact hleads'
      rcases hscore with heq | ⟨hle, hmem⟩
      · exact .inl heq
      · rw [htodo] at hmem
        rcases List.mem_cons.1 hmem with rfl | hmem
        -- the way that was worked off leads to the improved state and to no other
        · rw [hleads, Option.some.injEq] at hleads'
          have hsame : q.item = old.item := by rw [← hitem, hleads']
          exact absurd (hplaced.wellFormed.eq_of_item hq hold hsame) hj
        · exact .inr ⟨hle, List.mem_append_right _ hmem⟩

end Step

/-- Every step keeps all states backed. A score can only be out of date while ways are pending, and
adding and improving put the ways in front that bring it up to date. -/
theorem AllBacked.step {t : Task} (hg : t.grammar.Coherent) {r : Run} (hplaced : Placed t r)
    (h : AllBacked t r) : AllBacked t (r.step t) := by
  -- without pending ways all scores are up to date, so it does not matter what comes next
  have hkeep : ∀ {r' : Run}, r.todo = [] → r'.chart.states = r.chart.states → AllBacked t r' := by
    intro r' htodo hstates id q hq
    rw [hstates] at hq
    have hbacked := h id q hq
    rw [htodo] at hbacked
    exact hbacked.of_states_eq hstates _
  generalize hr' : r.step t = r'
  have hmove : Move t r r' := hr' ▸ move_step t r
  -- one case for each thing that a step can do
  cases hmove with
  | settle htodo hsettled => exact backed_settle hg hplaced h htodo hsettled
  | add htodo hleads _ hnew => exact backed_add hplaced h htodo hleads hnew
  | improve htodo hleads hknown hold hbetter =>
    exact backed_improve hg hplaced h htodo hleads hold (hplaced.item_eq hknown hold) hbetter
  | pass htodo _ _ _ => exact hkeep htodo rfl
  | predict htodo _ _ _ _ => exact hkeep htodo rfl
  | complete htodo _ _ _ => exact hkeep htodo rfl
  | advance htodo _ => exact hkeep htodo rfl

/-- Every state is backed in every run that is met: in the beginning there is none, and each step
keeps them backed. -/
theorem Reached.allBacked {t : Task} (hg : t.grammar.Coherent) {r : Run} (h : Reached t r) :
    AllBacked t r := by
  induction h with
  | begin =>
    intro id s hs
    obtain ⟨predicted, hbegin⟩ := begin_eq t
    simp [hbegin] at hs
  | step hreached _ ih => exact ih.step hg (hreached.placed hg)

end Run

end Utterance
