import Utterance.Proofs.Chart.Pruning

/-!
# Looking one word ahead

A run that looks one word ahead and a run that does not go in step. Each step of the second, longer run
is either about a ruled-out start, and the shorter run waits, or both do the same, up to the numbers of
their states. So at the end the chart of the shorter run is the chart of the longer one with the
ruled-out starts struck.
-/

namespace Utterance

/-! ## Runs in step -/

namespace Run

/-- Two runs are at the same place: the first has done all that the second has done, and has it to do,
but for what is ruled out. -/
structure InStep (t : Task) (r r' : Run) : Prop where
  chart : Chart.Prunes t r.chart r'.chart
  todo : Chart.Thins t r'.chart r.todo r'.todo
  pos : r.pos = r'.pos
  taken : r.taken = ((r'.chart.endingAt r'.pos).toList.take r'.taken).countP (r'.chart.keeps t)

/-- An entry that passes the filter comes, in the filtered list, behind as many entries as passed
the filter before it. -/
theorem getElem?_filter_countP_take {α : Type} {p : α → Bool} {l : List α} {n : Nat} {x : α}
    (hx : l[n]? = some x) (hp : p x = true) : (l.filter p)[(l.take n).countP p]? = some x := by
  obtain ⟨hlt, rfl⟩ := List.getElem?_eq_some_iff.1 hx
  have hsplit : l = l.take n ++ l[n] :: l.drop (n + 1) := by simp
  have hfilter : l.filter p = (l.take n).filter p ++ l[n] :: (l.drop (n + 1)).filter p := by
    conv_lhs => rw [hsplit, List.filter_append, List.filter_cons_of_pos hp]
  rw [hfilter, List.countP_eq_length_filter, List.getElem?_append_right (Nat.le_refl _)]
  simp

section InStep

variable {t : Task} {r r' : Run}

/-- The states that end at the position of the runs are the same in both, less the ruled-out ones. -/
theorem InStep.endings (h : InStep t r r') (hr : Placed t r) (hr' : Placed t.blind r') :
    List.Forall₂ (Chart.Pairs (r'.chart.kept t)) (r.chart.endingAt r.pos).toList
      ((r'.chart.endingAt r'.pos).toList.filter (r'.chart.keeps t)) := by
  rw [hr.wellFormed.endings, hr'.wellFormed.endings, h.pos]
  exact h.chart.idsWhere _

/-- At the beginning both charts are empty and the same heads are predicted. -/
theorem InStep.begin (ht : t.lookahead = true) (hg : t.grammar.Coherent)
    (htidy : t.grammar.Tidy) : InStep t (.begin t) (.begin t.blind) := by
  have hempty : Chart.Prunes t {} {} :=
    ⟨rfl, rfl, fun {i j s'} _ hs' => by simp at hs'⟩
  obtain ⟨hprunes, hthins⟩ := hempty.predictAll ht hg htidy 0 t.grammar.topHeads
  exact ⟨hprunes, hthins, rfl, by simp [Run.begin]⟩

/-- Both runs offer what the same way leads to. It leads to states that are alike, so the offers are
taken alike, and what is put in front of the pending ways stays the same but for ruled-out ones. -/
theorem InStep.offer (h : InStep t r r') (hr : Placed t r) (hr' : Placed t.blind r')
    (hstep : Placed t (r.step t)) (hstep' : Placed t.blind (r'.step t.blind)) {w w' : Chart.Way}
    {ws ws' : List Chart.Way} (htodo : r.todo = w :: ws) (htodo' : r'.todo = w' :: ws')
    (same : Chart.SameWay t (r'.chart.kept t) w w') (rest : Chart.Thins t r'.chart ws ws') :
    InStep t (r.step t) (r'.step t.blind) := by
  obtain ⟨c, todo, pos, taken⟩ := r
  obtain ⟨c', todo', pos', taken'⟩ := r'
  simp only at htodo htodo' same rest
  subst htodo htodo'
  have hleads := h.chart.state? same
  have hwell := hstep.wellFormed
  have hwell' := hstep'.wellFormed
  simp only [step, offerWay] at hwell hwell' ⊢
  generalize c.state? t w = lead at hleads hwell ⊢
  generalize hlead' : c'.state? t.blind w' = lead' at hleads hwell' ⊢
  -- both ways lead nowhere, or to states that are alike and neither of which is ruled out
  cases hleads with
  | none => exact ⟨h.chart, rest, h.pos, h.taken⟩
  | @some s s' halike =>
    have hkept := same.not_isRuledOut hlead'
    obtain ⟨hprunes, himproved⟩ := h.chart.offer hr.wellFormed hr'.wellFormed halike hkept
    have hgrows : Chart.Grows t c' (c'.offer t.blind s').1 := Chart.grows_offer hr'.wellFormed s'
    refine ⟨hprunes, Chart.Thins.append ?_ (rest.grows hgrows), h.pos, ?_⟩
    · generalize (c.offer t s).2 = improved at himproved ⊢
      generalize (c'.offer t.blind s').2 = improved' at himproved ⊢
      cases himproved with
      | none => exact .nil
      | some hij => exact .of_forall₂ (hprunes.completions hwell hwell' hij)
    · rw [hgrows.countP_take hr'.wellFormed hr'.taken_le]
      exact h.taken

/-- The first run waits while the second works off an idle way. The way adds or improves a ruled-out
state at most, which no pair of the correspondence mentions, and no further work comes of it. -/
theorem InStep.idle (h : InStep t r r') (hr' : Placed t.blind r') {w' : Chart.Way}
    {ws' : List Chart.Way} (htodo' : r'.todo = w' :: ws') (idle : Chart.Idle t r'.chart w')
    (rest : Chart.Thins t r'.chart r.todo ws') : InStep t r (r'.step t.blind) := by
  obtain ⟨c', todo', pos', taken'⟩ := r'
  simp only at htodo' idle rest
  subst htodo'
  simp only [step, offerWay]
  -- an idle way leads nowhere or to a ruled-out state, which the first run never has
  rcases idle.state? with hnone | ⟨s', hs', hruled⟩
  · rw [hnone]
    exact ⟨h.chart, rest, h.pos, h.taken⟩
  · rw [hs']
    obtain ⟨hprunes, hnothing⟩ := h.chart.offer_right hr'.wellFormed hruled
    have hgrows : Chart.Grows t c' (c'.offer t.blind s').1 := Chart.grows_offer hr'.wellFormed s'
    refine ⟨hprunes, ?_, h.pos, ?_⟩
    · cases himproved : (c'.offer t.blind s').2 with
      | none => exact rest.grows hgrows
      | some id =>
        simp only [hnothing id himproved]
        exact rest.grows hgrows
    · rw [hgrows.countP_take hr'.wellFormed hr'.taken_le]
      exact h.taken

/-- Taking up a further state counts if it is kept. -/
theorem countP_take_succ {c c' : Chart} {pos n id : Nat} (hstates : c'.states = c.states)
    (hendings : c'.endings = c.endings) (hid : (c.endingAt pos)[n]? = some id) :
    ((c'.endingAt pos).toList.take (n + 1)).countP (c'.keeps t)
      = ((c.endingAt pos).toList.take n).countP (c.keeps t) + if c.keeps t id then 1 else 0 := by
  have hkeeps : c'.keeps t = c.keeps t := by
    funext j
    simp [Chart.keeps, hstates]
  have hget : (c.endingAt pos).toList[n]? = some id := by simpa using hid
  have hlist : c'.endingAt pos = c.endingAt pos := by simp [Chart.endingAt, hendings]
  rw [hkeeps, hlist, List.take_add_one, hget, List.countP_append]
  simp [List.countP_cons]

/-- A kept state that the second run takes up next is the next one of the first run as well: the
states before it that are kept are those that the first run has taken up. -/
theorem InStep.exists_next (h : InStep t r r') (hr : Placed t r) (hr' : Placed t.blind r') {j : Nat}
    (hnext' : (r'.chart.endingAt r'.pos)[r'.taken]? = some j) (hkeeps : r'.chart.keeps t j = true) :
    ∃ i, (r.chart.endingAt r.pos)[r.taken]? = some i ∧ Chart.Pairs (r'.chart.kept t) i j := by
  have hget : ((r'.chart.endingAt r'.pos).toList.filter (r'.chart.keeps t))[r.taken]? = some j := by
    rw [h.taken]
    exact getElem?_filter_countP_take (by simpa using hnext') hkeeps
  obtain ⟨hlt', hj⟩ := List.getElem?_eq_some_iff.1 hget
  have hendings := h.endings hr hr'
  have hlt : r.taken < (r.chart.endingAt r.pos).toList.length := by
    rw [hendings.length_eq]
    exact hlt'
  refine ⟨(r.chart.endingAt r.pos).toList[r.taken], ?_, ?_⟩
  · rw [← Array.getElem?_toList]
    exact List.getElem?_eq_getElem hlt
  · have hpairs := hendings.get hlt hlt'
    simpa [hj] using hpairs

/-- A state that is taken up by the second run is taken up by the first, unless it is ruled out. The
first run then waits, as nothing follows from such a state, and the number of states that matter
stays the same. -/
theorem InStep.takeUp (h : InStep t r r') (ht : t.lookahead = true) (hg : t.grammar.Coherent)
    (htidy : t.grammar.Tidy) (hr : Placed t r) (hr' : Placed t.blind r') (htodo : r.todo = [])
    (htodo' : r'.todo = []) {j : Nat} (hnext' : (r'.chart.endingAt r'.pos)[r'.taken]? = some j) :
    InStep t r (r'.step t.blind)
      ∨ r.halted t = false ∧ InStep t (r.step t) (r'.step t.blind) := by
  obtain ⟨s', hs', _⟩ := hr'.exists_next hnext'
  obtain ⟨_, hstates, hends⟩ := takeUp_keeps t.blind r'.chart r'.pos j
  have hcount := countP_take_succ (t := t) hstates hends hnext'
  rw [← h.taken] at hcount
  rw [step_of_next htodo' hnext']
  -- a ruled-out state has nothing to follow it, so the first run may wait
  cases hkeeps : r'.chart.keeps t j with
  | false =>
    left
    have hruled : t.isRuledOut s'.item = true := by simpa [Chart.keeps, hs'] using hkeeps
    rw [hkeeps] at hcount
    rw [Chart.takeUp_of_not_keeps hs' hruled] at hcount ⊢
    exact ⟨h.chart, by rw [htodo]; exact .nil, h.pos, by simpa using hcount.symm⟩
  | true =>
    right
    obtain ⟨i, hnext, hij⟩ := h.exists_next hr hr' hnext' hkeeps
    obtain ⟨hprunes, hthins⟩ := h.chart.takeUp ht hg htidy hr.wellFormed hr'.wellFormed r'.pos hij
    refine ⟨?_, ?_⟩
    · have hsize : r.taken < (r.chart.endingAt r.pos).size :=
        (Array.getElem?_eq_some_iff.1 hnext).1
      simp [halted, hsize]
    · rw [step_of_next htodo hnext, h.pos]
      rw [hkeeps] at hcount
      exact ⟨hprunes, hthins, rfl, hcount.symm⟩

/-- The scans of the next word are the same, less those of ruled-out starts. -/
theorem thins_scan {c' : Chart} {ids ids' : List Nat}
    (h : List.Forall₂ (Chart.Pairs (c'.kept t)) ids (ids'.filter (c'.keeps t)))
    (hstates : ∀ j ∈ ids', ∃ s, c'.states[j]? = some s) :
    Chart.Thins t c' (ids.map .scan) (ids'.map .scan) := by
  -- by induction on the longer list, whose idle entries are skipped
  induction ids' generalizing ids with
  | nil =>
    cases h
    exact .nil
  | cons j ids' ih =>
    have hrest : ∀ k ∈ ids', ∃ s, c'.states[k]? = some s := by
      intro k hk
      exact hstates k (List.mem_cons_of_mem _ hk)
    cases hkeeps : c'.keeps t j with
    | true =>
      rw [List.filter_cons_of_pos hkeeps] at h
      cases h with
      | cons hij hpairs => exact .both (.scan hij) (ih hpairs hrest)
    | false =>
      rw [List.filter_cons_of_neg (by simp [hkeeps])] at h
      obtain ⟨s, hs⟩ := hstates j (List.mem_cons_self ..)
      exact .skip ⟨s, hs, by simpa [Chart.keeps, hs] using hkeeps⟩ (ih h hrest)

/-- When the second run has taken up all states that end at its position, the first has as well, so
the two move on to the next word together. -/
theorem InStep.taken_eq (h : InStep t r r') (hr : Placed t r) (hr' : Placed t.blind r')
    (hdone : (r'.chart.endingAt r'.pos).size ≤ r'.taken) :
    r.taken = (r.chart.endingAt r.pos).size := by
  rw [h.taken, List.take_of_length_le (by simpa using hdone), List.countP_eq_length_filter,
    ← (h.endings hr hr').length_eq, Array.length_toList]

/-- Moving on to the next word puts the scans of it on both agendas, less those of ruled-out starts. -/
theorem InStep.advance (h : InStep t r r') (hr : Placed t r) (hr' : Placed t.blind r')
    (htodo : r.todo = []) (htodo' : r'.todo = [])
    (hdone : (r'.chart.endingAt r'.pos).size ≤ r'.taken) :
    InStep t (r.step t) (r'.step t.blind) := by
  have hstates : ∀ j ∈ (r'.chart.endingAt r'.pos).toList, ∃ s, r'.chart.states[j]? = some s := by
    intro j hj
    obtain ⟨s, hs, _⟩ := hr'.wellFormed.mem_endingAt.1 hj
    exact ⟨s, hs⟩
  have hnext : (r.chart.endingAt r.pos)[r.taken]? = none := by simp [h.taken_eq hr hr' hdone]
  have hnext' : (r'.chart.endingAt r'.pos)[r'.taken]? = none := by simpa using hdone
  rw [step_of_done htodo hnext, step_of_done htodo' hnext']
  exact ⟨h.chart, thins_scan (h.endings hr hr') hstates, congrArg (· + 1) h.pos, by simp⟩

/-- A step of the second run is about something ruled out, or both runs take the same step. This is
the simulation: the second run makes every step of the first, with idle ones in between. -/
theorem InStep.step (h : InStep t r r') (ht : t.lookahead = true) (hg : t.grammar.Coherent)
    (htidy : t.grammar.Tidy) (hr : Placed t r) (hr' : Placed t.blind r')
    (hgoing' : r'.halted t.blind = false) :
    InStep t r (r'.step t.blind)
      ∨ r.halted t = false ∧ InStep t (r.step t) (r'.step t.blind) := by
  have hthins := h.todo
  generalize htodo : r.todo = todo at hthins
  generalize htodo' : r'.todo = todo' at hthins
  -- what is next on the agenda of the second run decides who moves
  cases hthins with
  | both same rest =>
    right
    have hgoing : r.halted t = false := by simp [halted, htodo]
    refine ⟨hgoing, h.offer hr hr' (hr.step hg hgoing) ?_ htodo htodo' same rest⟩
    exact hr'.step (t := t.blind) hg hgoing'
  | skip idle rest =>
    left
    exact h.idle hr' htodo' idle (by rw [htodo]; exact rest)
  -- both agendas are empty, as a list without idle ways left cannot correspond to a longer one
  | nil =>
    cases hnext' : (r'.chart.endingAt r'.pos)[r'.taken]? with
    | some j => exact h.takeUp ht hg htidy hr hr' htodo htodo' hnext'
    | none =>
      right
      have hdone : (r'.chart.endingAt r'.pos).size ≤ r'.taken := by simpa using hnext'
      refine ⟨?_, h.advance hr hr' htodo htodo' hdone⟩
      -- there is a next word, as the second run goes on
      by_contra hhalted
      obtain ⟨_, _, hlength⟩ := halted_iff.1 (by simpa using hhalted)
      rw [h.pos] at hlength
      have hhalted' : r'.halted t.blind = true := halted_iff.2 ⟨htodo', hdone, hlength⟩
      simp [hhalted'] at hgoing'

/-- The first run has come to its end when the second has. -/
theorem InStep.halted (h : InStep t r r') (hr : Placed t r) (hr' : Placed t.blind r')
    (hhalted' : r'.halted t.blind = true) : r.halted t = true := by
  obtain ⟨htodo', hdone, hlength⟩ := halted_iff.1 hhalted'
  have hthins := h.todo
  rw [htodo'] at hthins
  refine halted_iff.2 ⟨?_, Nat.le_of_eq (h.taken_eq hr hr' hdone).symm, ?_⟩
  -- nothing is pending in the second run, and what is pending in the first is paired with that
  · generalize r.todo = todo at hthins
    cases hthins
    rfl
  · rw [h.pos]
    exact hlength

theorem finish_of_halted {t : Task} {r : Run} (h : r.halted t = true) : r.finish t = r := by
  rw [finish, dif_pos h]

theorem finish_of_going {t : Task} {r : Run} (h : r.halted t = false) :
    r.finish t = (r.step t).finish t := by
  rw [finish, dif_neg (by simp [h])]

/-- The two runs come to their ends in step. The induction is on the longer run, as that one makes
every step; the first run makes the same step or waits. -/
theorem InStep.finish (h : InStep t r r') (ht : t.lookahead = true) (hg : t.grammar.Coherent)
    (htidy : t.grammar.Tidy) (hr : Placed t r) (hr' : Placed t.blind r') :
    InStep t (r.finish t) (r'.finish t.blind) := by
  -- by induction on the longer run; the shorter one catches up or waits
  fun_induction Run.finish t.blind r' generalizing r with
  | case1 r' hhalted' =>
    rw [finish_of_halted (h.halted hr hr' hhalted')]
    exact h
  | case2 r' hgoing' ih =>
    have hgoing' : r'.halted t.blind = false := by simpa using hgoing'
    rcases h.step ht hg htidy hr hr' hgoing' with hwait | ⟨hgoing, hstep⟩
    · exact ih hwait hr (hr'.step (t := t.blind) hg hgoing')
    · rw [finish_of_going hgoing]
      exact ih hstep (hr.step hg hgoing) (hr'.step (t := t.blind) hg hgoing')

end InStep

end Run

/-- The chart of a task is that of the task without looking ahead, less the ruled-out starts. -/
theorem Task.prunes_chart {t : Task} (ht : t.lookahead = true) (hg : t.grammar.Coherent)
    (htidy : t.grammar.Tidy) : Chart.Prunes t t.chart t.blind.chart :=
  ((Run.InStep.begin ht hg htidy).finish ht hg htidy (Run.placed_begin hg)
    (Run.placed_begin hg)).chart

end Utterance
