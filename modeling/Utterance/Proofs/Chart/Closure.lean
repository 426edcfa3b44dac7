import Utterance.Proofs.Chart.Backing

/-!
# Nothing is forgotten

A way is due once the run has come past what it starts from: a predicted head makes the starts of its
productions due, a position that is passed makes the scans of its states due, and a finished state
that was taken up makes the joins with those that wait for it due. Every due way is honoured, by a
state for its item that is at least as good, or it is pending. So at the end all are honoured.
-/

namespace Utterance

namespace Chart

/-- An item has a state whose score is no worse than a given one. -/
def Attains (c : Chart) (i : Item) (bound : Score) : Prop :=
  ∃ (id : Nat) (s : ChartState), c.states[id]? = some s ∧ s.item = i ∧ s.score ≤ bound

/-- What a way leads to has a state that is at least as good. -/
def Honoured (t : Task) (c : Chart) (way : Way) : Prop :=
  ∀ s : ChartState, c.state? t way = some s → c.Attains s.item s.score

/-- A later chart honours what an earlier one does, if it leads there still. -/
theorem Honoured.mono {t : Task} {c c' : Chart} (hext : c.Extends c') {way : Way}
    (hsame : c'.state? t way = c.state? t way) (h : c.Honoured t way) : c'.Honoured t way := by
  intro s hs
  rw [hsame] at hs
  obtain ⟨id, q, hq, hitem, hle⟩ := h s hs
  obtain ⟨q', hq', hitem', hle'⟩ := hext.exists_le hq
  exact ⟨id, q', hq', hitem'.trans hitem, le_trans hle' hle⟩

/-! ## Predictions -/

/-- After a prediction just one more head counts as predicted at the position, if it was not before. -/
theorem contains_predict (t : Task) (c : Chart) (head : String) (pos : Nat) (q : Nat × String) :
    (c.predict t head pos).1.predicted.contains q = true
      ↔ c.predicted.contains q = true ∨ q = (pos, Text.lower head) := by
  unfold predict
  simp only
  split
  · rename_i hseen
    constructor
    · exact .inl
    · rintro (hq | rfl)
      · exact hq
      · exact hseen
  · rw [Std.HashSet.contains_insert, Bool.or_eq_true, beq_iff_eq, or_comm, eq_comm (b := q)]

/-- A head that has not been predicted before opens up the starts of all its productions that may
start. -/
theorem start_mem_predict {t : Task} {c : Chart} {head : String} {pos : Nat} {p : Production}
    (hnew : ¬ c.predicted.contains (pos, Text.lower head) = true) (hp : p ∈ t.grammar.rulesFor head)
    (hstart : mayStart t pos p = true) : .start p.id pos ∈ (c.predict t head pos).2 := by
  unfold predict
  simp only [if_neg hnew]
  exact List.mem_map.2 ⟨p, List.mem_filter.2 ⟨hp, hstart⟩, rfl⟩

/-- After predicting several heads, those have been predicted, and the ones from before. -/
theorem contains_predictAll (t : Task) (c : Chart) (pos : Nat) (heads : List String)
    (q : Nat × String) :
    (c.predictAll t pos heads).1.predicted.contains q = true
      ↔ c.predicted.contains q = true ∨ ∃ head ∈ heads, q = (pos, Text.lower head) := by
  induction heads generalizing c with
  | nil => simp [predictAll]
  | cons head rest ih =>
    rw [predictAll]
    simp only [ih, contains_predict, List.mem_cons, exists_eq_or_imp, or_assoc]

/-- The starts of a head are opened up by the first of several predictions that names it. The heads
before it in the list have other names, so none of them predicts it in its place. -/
theorem start_mem_predictAll {t : Task} (hg : t.grammar.Coherent) {c : Chart} {pos rule : Nat}
    {heads : List String} {p : Production} (hp : t.grammar.productions[rule]? = some p)
    (hstart : mayStart t pos p = true)
    (hnew : ¬ c.predicted.contains (pos, Text.lower p.head) = true)
    (hhead : ∃ head ∈ heads, Text.lower p.head = Text.lower head) :
    .start rule pos ∈ (c.predictAll t pos heads).2 := by
  have hid := hg.id_eq hp
  subst hid
  induction heads generalizing c with
  | nil => simp at hhead
  | cons head rest ih =>
    rw [predictAll]
    apply List.mem_append.2
    by_cases hsame : Text.lower p.head = Text.lower head
    · rw [hsame] at hnew
      exact .inl (start_mem_predict hnew (hg.mem_rulesFor.2 ⟨hp, hsame⟩) hstart)
    -- another head comes first and does not predict this one
    · refine .inr (ih ?_ ?_)
      · rw [contains_predict]
        rintro (hold | heq)
        · exact hnew hold
        · exact hsame (Prod.mk.inj heq).2
      · obtain ⟨h, hmem, heq⟩ := hhead
        rcases List.mem_cons.1 hmem with rfl | hmem
        · exact absurd heq hsame
        · exact ⟨h, hmem, heq⟩

end Chart

namespace Run

/-! ## Due ways -/

/-- A state has been taken up. -/
def Taken (r : Run) (id : Nat) : Prop :=
  ∃ s, r.chart.states[id]? = some s
    ∧ (s.item.stop < r.pos ∨ id ∈ (r.chart.endingAt r.pos).toList.take r.taken)

/-- The run has come past what a way starts from. -/
def Due (t : Task) (r : Run) : Chart.Way → Prop
  | .start rule pos =>
    ∃ p, t.grammar.productions[rule]? = some p ∧ Chart.mayStart t pos p = true
      ∧ r.chart.predicted.contains (pos, Text.lower p.head) = true
  | .scan id => ∃ s, r.chart.states[id]? = some s ∧ s.item.stop < r.pos
  | .join id done => r.Taken done ∧ r.chart.Valid t (.join id done)

/-- The heads that states wait for are predicted once the states are taken up, and what is due is
honoured or pending. -/
structure Closed (t : Task) (r : Run) : Prop where
  tops : ∀ head ∈ t.grammar.topHeads, r.chart.predicted.contains (0, Text.lower head) = true
  foreseen : ∀ (id : Nat) (s : ChartState) (name : String), r.Taken id →
    r.chart.states[id]? = some s → t.waitsFor s.item name = true →
    r.chart.predicted.contains (s.item.stop, name) = true
  due : ∀ way, r.Due t way → r.chart.Honoured t way ∨ way ∈ r.todo

section Step

variable {t : Task} {r : Run} {way : Chart.Way} {rest : List Chart.Way}

theorem Taken.exists_state {id : Nat} (h : r.Taken id) : ∃ s, r.chart.states[id]? = some s := by
  obtain ⟨s, hs, _⟩ := h
  exact ⟨s, hs⟩

/-- What is due reads states that are there. -/
theorem Due.exists_of_reads {id : Nat} (h : r.Due t way) (hreads : way.Reads id) :
    ∃ s, r.chart.states[id]? = some s := by
  cases way with
  | start rule pos => exact hreads.elim
  | scan j =>
    obtain ⟨s, hs, _⟩ := h
    exact ⟨s, hreads ▸ hs⟩
  | join j done =>
    obtain ⟨_, s, d, hs, hd, _⟩ := h
    rcases hreads with hj | hj
    · exact ⟨s, hj ▸ hs⟩
    · exact ⟨d, hj ▸ hd⟩

/-- A due way depends on a state that ends at the position of the run only as on a finished part. -/
theorem Due.eq_join_of_reads (hg : t.grammar.Coherent) (hplaced : Placed t r) (h : r.Due t way)
    {id : Nat} {s : ChartState} (hs : r.chart.states[id]? = some s) (hstop : s.item.stop = r.pos)
    (hreads : way.Reads id) : ∃ w, w ≠ id ∧ way = .join w id := by
  cases way with
  | start rule pos => exact hreads.elim
  | scan j =>
    obtain ⟨s', hs', hlt⟩ := h
    rw [show j = id from hreads, hs, Option.some.injEq] at hs'
    -- a due scan reads a state that ends before the position of the run, and this one ends there
    subst hs'
    omega
  | join j done =>
    obtain ⟨⟨d, hd, _⟩, hvalid⟩ := h
    have hleads : r.chart.LeadsTo d.item.stop (.join j done) := ⟨d, hd, rfl⟩
    refine hvalid.eq_join_of_reads hg hplaced.wellFormed hs hleads ?_ hreads
    rw [hstop]
    exact hplaced.stop_le hd

/-- A way that changes nothing may be taken off the agenda: there is a state for its item that is at
least as good, so it is honoured as it stands. -/
theorem closed_settle (hg : t.grammar.Coherent) (hplaced : Placed t r) (h : Closed t r)
    (htodo : r.todo = way :: rest)
    (hsettled : ∀ s, r.chart.state? t way = some s → t.fits s.item = true →
      ∃ id, r.chart.index[s.item]? = some id
        ∧ ∀ old, r.chart.states[id]? = some old → old.score ≤ s.score) :
    Closed t ⟨r.chart, rest, r.pos, r.taken⟩ where
  tops := h.tops
  foreseen := h.foreseen
  due w hw := by
    -- only what is due and still pending needs a look
    rcases h.due w hw with hdone | hmem
    · exact .inl hdone
    rw [htodo] at hmem
    rcases List.mem_cons.1 hmem with rfl | hmem
    -- the way that was worked off found a state that is as good
    · left
      intro s hs
      have hproper := (hplaced.leads hg (mem_todo htodo) hs).2
      obtain ⟨id, hindex, hall⟩ := hsettled s hs hproper.fits
      obtain ⟨q, hq, hitem⟩ := hplaced.wellFormed.index.1 hindex
      exact ⟨id, q, hq, hitem, hall q hq⟩
    · exact .inr hmem

/-- A new state is not taken up yet. -/
theorem taken_of_insert {todo : List Chart.Way} {s : ChartState} (hplaced : Placed t r)
    (hstop : s.item.stop = r.pos) {id : Nat}
    (h : Taken ⟨r.chart.insert t s, todo, r.pos, r.taken⟩ id) : r.Taken id := by
  obtain ⟨q, hq, hlt | hmem⟩ := h
  · simp only [Chart.getElem?_insert] at hq
    split at hq
    · cases hq
      simp only at hlt
      omega
    · exact ⟨q, hq, .inl hlt⟩
  -- its number comes after all that were there, so those taken up are the same
  · simp only [Chart.toList_endingAt_insert] at hmem
    rw [List.take_append_of_le_length (by simpa using hplaced.taken_le)] at hmem
    obtain ⟨p, hp, _⟩ := hplaced.wellFormed.mem_endingAt.1 (List.mem_of_mem_take hmem)
    exact ⟨p, hp, .inr hmem⟩

/-- A new state makes nothing due. It has not been taken up, it ends at the position of the run, and
what is finished there starts earlier. -/
theorem due_of_insert {todo : List Chart.Way} {s : ChartState} (hg : t.grammar.Coherent)
    (hplaced : Placed t r) (hstop : s.item.stop = r.pos)
    (h : Due t ⟨r.chart.insert t s, todo, r.pos, r.taken⟩ way) : r.Due t way := by
  cases way with
  | start rule pos => exact h
  | scan id =>
    obtain ⟨q, hq, hlt⟩ := h
    simp only [Chart.getElem?_insert] at hq
    split at hq
    · cases hq
      simp only at hlt
      omega
    · exact ⟨q, hq, hlt⟩
  | join id done =>
    obtain ⟨htaken, w, d, hw, hd, hfinished, hmeet, hwaits⟩ := h
    have htaken := taken_of_insert hplaced hstop htaken
    obtain ⟨d', hd'⟩ := htaken.exists_state
    simp only [Chart.getElem?_insert_of_some t s hd', Option.some.injEq] at hd
    subst hd
    have hlt := (hplaced.wellFormed.proper hd').start_lt hg hfinished
    have hle := hplaced.stop_le hd'
    -- the new state ends too late to wait for the finished one
    simp only [Chart.getElem?_insert] at hw
    split at hw
    · cases hw
      omega
    · exact ⟨htaken, w, d', hw, hd', hfinished, hmeet, hwaits⟩

/-- Adding a state keeps the run closed. What was due reads old states only, so it leads where it
led; and the way that was worked off is honoured by the new state. -/
theorem closed_add (hg : t.grammar.Coherent) (hplaced : Placed t r) (h : Closed t r)
    (htodo : r.todo = way :: rest) {s : ChartState} (hleads : r.chart.state? t way = some s) :
    Closed t ⟨r.chart.insert t s, rest, r.pos, r.taken⟩ := by
  have hstop := (hplaced.leads hg (mem_todo htodo) hleads).1
  have hext := Chart.extends_insert t r.chart s
  refine ⟨h.tops, ?_, ?_⟩
  · intro id q name htaken hq hwaits
    have htaken := taken_of_insert hplaced hstop htaken
    obtain ⟨p, hp⟩ := htaken.exists_state
    simp only [Chart.getElem?_insert_of_some t s hp, Option.some.injEq] at hq
    subst hq
    exact h.foreseen id p name htaken hp hwaits
  · intro w hw
    have hdue := due_of_insert hg hplaced hstop hw
    -- what was due before leads where it led, since it reads old states only
    have hsame : (r.chart.insert t s).state? t w = r.chart.state? t w := by
      apply Chart.state?_congr
      intro id hreads
      obtain ⟨p, hp⟩ := hdue.exists_of_reads hreads
      rw [hp, Chart.getElem?_insert_of_some t s hp]
    -- it is done, or it is the way that was just followed, or it is still to be followed
    rcases h.due w hdue with hdone | hmem
    · exact .inl (hdone.mono hext hsame)
    rw [htodo] at hmem
    rcases List.mem_cons.1 hmem with rfl | hmem
    · left
      intro q hq
      rw [Chart.state?_insert_of_some hleads s, Option.some.injEq] at hq
      subst hq
      exact ⟨r.chart.states.size, s, by rw [Chart.getElem?_insert, if_pos rfl], rfl, le_refl _⟩
    · exact .inr hmem

/-- An improvement keeps all items and all lists, so the same states are taken up. -/
theorem taken_of_improve {todo : List Chart.Way} {s old : ChartState} {id j : Nat}
    (hold : r.chart.states[id]? = some old) (hitem : s.item = old.item)
    (h : Taken ⟨r.chart.improve id s, todo, r.pos, r.taken⟩ j) : r.Taken j := by
  obtain ⟨q, hq, hcase⟩ := h
  obtain ⟨p, hp, hsame⟩ := Chart.retains_of_improve hold hitem j q hq
  exact ⟨p, hp, by rw [hsame]; exact hcase⟩

/-- Improving a state keeps the run closed. What is due and contains the improved state leads to a
better score than before; this is just what the completions put on the agenda stand for. -/
theorem closed_improve (hg : t.grammar.Coherent) (hplaced : Placed t r) (h : Closed t r)
    (htodo : r.todo = way :: rest) {s old : ChartState} {id : Nat}
    (hleads : r.chart.state? t way = some s) (hold : r.chart.states[id]? = some old)
    (hitem : s.item = old.item) (hbetter : s.score < old.score) :
    Closed t
      ⟨r.chart.improve id s, (r.chart.improve id s).completions t id ++ rest, r.pos, r.taken⟩ := by
  have hway : way ∈ r.todo := mem_todo htodo
  have hstop : old.item.stop = r.pos := by
    rw [← hitem]
    exact (hplaced.leads hg hway hleads).1
  have hext := Chart.extends_improve hold hitem hbetter
  have hback := Chart.retains_of_improve hold hitem
  have hwell := hplaced.wellFormed.improve hold hitem
  refine ⟨h.tops, ?_, ?_⟩
  · intro j q name htaken hq hwaits
    obtain ⟨p, hp, hsame⟩ := hback j q hq
    rw [← hsame] at hwaits ⊢
    exact h.foreseen j p name (taken_of_improve hold hitem htaken) hp hwaits
  · intro w hw
    -- an improvement moves no item, so nothing new is due
    have hdue : r.Due t w := by
      cases w with
      | start rule pos => exact hw
      | scan j =>
        obtain ⟨q, hq, hlt⟩ := hw
        obtain ⟨p, hp, hsame⟩ := hback j q hq
        exact ⟨p, hp, by rw [hsame]; exact hlt⟩
      | join j done => exact ⟨taken_of_improve hold hitem hw.1, hw.2.mono hback⟩
    by_cases hreads : w.Reads id
    -- what contains the improved state is joined anew
    · obtain ⟨j, _, rfl⟩ := hdue.eq_join_of_reads hg hplaced hold hstop hreads
      right
      exact List.mem_append_left _ (hwell.mem_completions.2 ⟨j, rfl, hw.2⟩)
    · have hsame := Chart.state?_improve_of_not_reads (t := t) hold s hreads
      rcases h.due w hdue with hdone | hmem
      · exact .inl (hdone.mono hext hsame)
      rw [htodo] at hmem
      rcases List.mem_cons.1 hmem with rfl | hmem
      -- the way that was worked off leads to the improved state itself
      · left
        intro q hq
        rw [hsame, hleads, Option.some.injEq] at hq
        subst hq
        exact ⟨id, s, Chart.getElem?_improve_self hold s, rfl, le_refl _⟩
      · exact .inr (List.mem_append_right _ hmem)

/-- Taking up a state adds it to those that are taken up, and leaves all others as they were. -/
theorem taken_succ {chart : Chart} {todo : List Chart.Way} {id j : Nat}
    (h : Taken ⟨chart, todo, r.pos, r.taken + 1⟩ j) (hstates : chart.states = r.chart.states)
    (hendings : chart.endings = r.chart.endings)
    (hnext : (r.chart.endingAt r.pos)[r.taken]? = some id) : r.Taken j ∨ j = id := by
  obtain ⟨s, hs, hcase⟩ := h
  simp only [hstates] at hs
  rcases hcase with hlt | hmem
  · exact .inl ⟨s, hs, .inl hlt⟩
  · have hsame : chart.endingAt r.pos = r.chart.endingAt r.pos := by
      simp only [Chart.endingAt, hendings]
    have hlt : r.taken < (r.chart.endingAt r.pos).toList.length := by
      simpa using (Array.getElem?_eq_some_iff.1 hnext).1
    have hlast : (r.chart.endingAt r.pos).toList[r.taken] = id := by
      simpa using (Array.getElem?_eq_some_iff.1 hnext).2
    -- one more state is taken up, the next one
    simp only [hsame] at hmem
    rw [List.take_succ_eq_append_getElem hlt, hlast] at hmem
    rcases List.mem_append.1 hmem with hmem | hmem
    · exact .inl ⟨s, hs, .inr hmem⟩
    · exact .inr (List.mem_singleton.1 hmem)

/-- Taking up a state keeps the run closed, if the head that it waits for is predicted, the joins it
makes due are pending, and so are the starts of the heads that are newly predicted. -/
theorem closed_takeUp (h : Closed t r) (htodo : r.todo = []) {id : Nat}
    (hnext : (r.chart.endingAt r.pos)[r.taken]? = some id)
    {predicted : Std.HashSet (Nat × String)} {todo : List Chart.Way}
    (hmore : ∀ q, r.chart.predicted.contains q = true → predicted.contains q = true)
    (hforeseen : ∀ s name, r.chart.states[id]? = some s → t.waitsFor s.item name = true →
      predicted.contains (s.item.stop, name) = true)
    (hjoins : ∀ w, r.chart.Valid t (.join w id) → .join w id ∈ todo)
    (hstarts : ∀ rule pos p, t.grammar.productions[rule]? = some p →
      Chart.mayStart t pos p = true → predicted.contains (pos, Text.lower p.head) = true →
      r.chart.predicted.contains (pos, Text.lower p.head) = true ∨ .start rule pos ∈ todo) :
    Closed t ⟨{ r.chart with predicted }, todo, r.pos, r.taken + 1⟩ := by
  -- so far everything that is due is honoured, and no state has changed
  have hkeep : ∀ {way : Chart.Way}, r.Due t way →
      Chart.Honoured t { r.chart with predicted } way := by
    intro way hdue
    have hhonoured := (h.due way hdue).resolve_right (by simp [htodo])
    have hext : r.chart.Extends { r.chart with predicted } := Chart.extends_of_states_eq rfl
    exact hhonoured.mono hext (Chart.state?_congr fun _ _ => rfl)
  -- the state that is taken up may wait for a head, or be finished; all others are as before
  refine ⟨fun head hhead => hmore _ (h.tops head hhead), ?_, ?_⟩
  · intro j s name htaken hs hwaits
    rcases taken_succ htaken rfl rfl hnext with htaken | rfl
    · exact hmore _ (h.foreseen j s name htaken hs hwaits)
    · exact hforeseen s name hs hwaits
  · intro w hw
    cases w with
    | start rule pos =>
      obtain ⟨p, hp, hstart, hpredicted⟩ := hw
      rcases hstarts rule pos p hp hstart hpredicted with hold | hmem
      · have hdue : r.Due t (.start rule pos) := ⟨p, hp, hstart, hold⟩
        exact .inl (hkeep hdue)
      · exact .inr hmem
    | scan j =>
      have hdue : r.Due t (.scan j) := hw
      exact .inl (hkeep hdue)
    | join j done =>
      obtain ⟨htaken, hvalid⟩ := hw
      have hvalid : r.chart.Valid t (.join j done) := hvalid
      rcases taken_succ htaken rfl rfl hnext with htaken | rfl
      · have hdue : r.Due t (.join j done) := ⟨htaken, hvalid⟩
        exact .inl (hkeep hdue)
      · exact .inr (hjoins j hvalid)

/-- Only a finished state can be joined. -/
theorem not_valid_join {id w : Nat} {s : ChartState} (hs : r.chart.states[id]? = some s)
    (hwaits : t.nextStep? s.item ≠ none) : ¬ r.chart.Valid t (.join w id) := by
  rintro ⟨_, d, _, hd, hfinished, _⟩
  rw [hs, Option.some.injEq] at hd
  subst hd
  exact hwaits (Task.isFinished_iff.1 hfinished)

/-- Taking up a state that waits for a word, or for a head that is predicted already, keeps the run
closed. It makes no join due, since it is not finished, and no start, since nothing new is
predicted. -/
theorem closed_pass (hplaced : Placed t r) (h : Closed t r) (htodo : r.todo = []) {id : Nat}
    (hnext : (r.chart.endingAt r.pos)[r.taken]? = some id)
    (hwaits : ∀ s, r.chart.states[id]? = some s → t.nextStep? s.item ≠ none)
    (hpredicted : ∀ s name, r.chart.states[id]? = some s → t.waitsFor s.item name = true →
      r.chart.predicted.contains (r.pos, name) = true) :
    Closed t ⟨r.chart, [], r.pos, r.taken + 1⟩ := by
  obtain ⟨s, hs, hstop⟩ := hplaced.exists_next hnext
  refine closed_takeUp h htodo hnext (fun _ hq => hq) ?_ ?_ fun _ _ _ _ _ => .inl
  · intro q name hq hname
    rw [hs, Option.some.injEq] at hq
    subst hq
    rw [hstop]
    exact hpredicted s name hs hname
  · exact fun w hvalid => absurd hvalid (not_valid_join hs (hwaits s hs))

/-- A start is due because its head was predicted before, or just now. In the first case it is there
or pending already, and in the second one it is among the ways that were just added. -/
theorem closed_predict (hg : t.grammar.Coherent) (hplaced : Placed t r) (h : Closed t r)
    (htodo : r.todo = []) {id : Nat} {s : ChartState} {step : Step}
    (hnext : (r.chart.endingAt r.pos)[r.taken]? = some id) (hs : r.chart.states[id]? = some s)
    (hwaits : t.nextStep? s.item = some step) :
    Closed t
      ⟨{ r.chart with predicted := r.chart.predicted.insert (r.pos, Text.lower step.symbol) },
        ((t.grammar.rulesFor step.symbol).filter (Chart.mayStart t r.pos)).map
          fun p => .start p.id r.pos,
        r.pos, r.taken + 1⟩ := by
  obtain ⟨s', hs', hstop⟩ := hplaced.exists_next hnext
  rw [hs, Option.some.injEq] at hs'
  subst hs'
  -- the state waits for a head, which is predicted now, so no join is due for it
  refine closed_takeUp h htodo hnext ?_ ?_ ?_ ?_
  · intro q hq
    simp [hq]
  · intro q name hq hname
    rw [hs, Option.some.injEq] at hq
    subst hq
    obtain ⟨step', hstep', _, rfl⟩ := Task.waitsFor_iff.1 hname
    rw [hwaits, Option.some.injEq] at hstep'
    subst hstep'
    rw [hstop]
    simp
  · exact fun w hvalid => absurd hvalid (not_valid_join hs (by simp [hwaits]))
  · intro rule pos p hp hstart hcontains
    rw [Std.HashSet.contains_insert, Bool.or_eq_true, beq_iff_eq] at hcontains
    -- the new head is closed by the ways that were added, and the others as before
    rcases hcontains with heq | hold
    · obtain ⟨rfl, hname⟩ := Prod.mk.inj heq
      right
      refine List.mem_map.2 ⟨p, List.mem_filter.2 ⟨?_, hstart⟩, by rw [hg.id_eq hp]⟩
      rw [hg.mem_rulesFor, hg.id_eq hp]
      exact ⟨hp, hname.symm⟩
    · exact .inl hold

/-- Taking up a finished state keeps the run closed. The joins that it makes due are just the
completions, and these are put on the agenda. -/
theorem closed_complete (hplaced : Placed t r) (h : Closed t r) (htodo : r.todo = []) {id : Nat}
    {s : ChartState} (hnext : (r.chart.endingAt r.pos)[r.taken]? = some id)
    (hs : r.chart.states[id]? = some s) (hfinished : t.nextStep? s.item = none) :
    Closed t ⟨r.chart, r.chart.completions t id, r.pos, r.taken + 1⟩ := by
  refine closed_takeUp h htodo hnext (fun _ hq => hq) ?_ ?_ fun _ _ _ _ _ => .inl
  -- a finished state waits for nothing
  · intro q name hq hname
    rw [hs, Option.some.injEq] at hq
    subst hq
    obtain ⟨step, hstep, _, _⟩ := Task.waitsFor_iff.1 hname
    rw [hfinished] at hstep
    cases hstep
  · exact fun w hvalid => hplaced.wellFormed.mem_completions.2 ⟨w, rfl, hvalid⟩

/-- Moving on to the next word makes the scans of the states that end here due, and puts all of them
on the agenda. -/
theorem closed_advance (hplaced : Placed t r) (h : Closed t r) (htodo : r.todo = [])
    (hdone : (r.chart.endingAt r.pos).size ≤ r.taken) :
    Closed t ⟨r.chart, (r.chart.endingAt r.pos).toList.map .scan, r.pos + 1, 0⟩ := by
  -- at the new position nothing is taken up yet
  have htaken : ∀ {id : Nat}, Taken ⟨r.chart, (r.chart.endingAt r.pos).toList.map .scan,
      r.pos + 1, 0⟩ id → r.Taken id := by
    rintro id ⟨s, hs, hlt | hmem⟩
    · by_cases hstop : s.item.stop = r.pos
      · refine ⟨s, hs, .inr ?_⟩
        rw [List.take_of_length_le (by simpa using hdone)]
        exact hplaced.wellFormed.mem_endingAt.2 ⟨s, hs, hstop⟩
      · simp only at hlt
        exact ⟨s, hs, .inl (by omega)⟩
    · simp at hmem
  refine ⟨h.tops, fun id s name ht hs hwaits => h.foreseen id s name (htaken ht) hs hwaits, ?_⟩
  intro w hw
  have hkeep : r.Due t w → r.chart.Honoured t w :=
    fun hdue => (h.due w hdue).resolve_right (by simp [htodo])
  cases w with
  | start rule pos => exact .inl (hkeep hw)
  | scan id =>
    obtain ⟨s, hs, hlt⟩ := hw
    -- the states that end at the position that is left are scanned now
    by_cases hstop : s.item.stop = r.pos
    · right
      exact List.mem_map.2 ⟨id, hplaced.wellFormed.mem_endingAt.2 ⟨s, hs, hstop⟩, rfl⟩
    · simp only at hlt
      exact .inl (hkeep ⟨s, hs, by omega⟩)
  | join id done => exact .inl (hkeep ⟨htaken hw.1, hw.2⟩)

end Step

/-- Every step keeps the run closed. -/
theorem Closed.step {t : Task} (hg : t.grammar.Coherent) {r : Run} (hplaced : Placed t r)
    (h : Closed t r) : Closed t (r.step t) := by
  generalize hr' : r.step t = r'
  have hmove : Move t r r' := hr' ▸ move_step t r
  cases hmove with
  | settle htodo hsettled => exact closed_settle hg hplaced h htodo hsettled
  | add htodo hleads _ _ => exact closed_add hg hplaced h htodo hleads
  | improve htodo hleads hknown hold hbetter =>
    exact closed_improve hg hplaced h htodo hleads hold (hplaced.item_eq hknown hold) hbetter
  | pass htodo hnext hwaits hpredicted =>
    exact closed_pass hplaced h htodo hnext hwaits hpredicted
  | predict htodo hnext hs hwaits _ => exact closed_predict hg hplaced h htodo hnext hs hwaits
  | complete htodo hnext hs hfinished => exact closed_complete hplaced h htodo hnext hs hfinished
  | advance htodo hdone => exact closed_advance hplaced h htodo hdone

/-- In the beginning the heads that may start a sentence have been predicted, their starts are
pending, and nothing else is due. -/
theorem closed_begin {t : Task} (hg : t.grammar.Coherent) : Closed t (.begin t) := by
  have hcontains := Chart.contains_predictAll t {} 0 t.grammar.topHeads
  obtain ⟨predicted, hchart⟩ := Chart.predictAll_eq t {} 0 t.grammar.topHeads
  have hbegin : begin t
      = ⟨{ predicted }, (Chart.predictAll t {} 0 t.grammar.topHeads).2, 0, 0⟩ := by
    simp only [begin, hchart]
  simp only [hchart] at hcontains
  rw [hbegin]
  refine ⟨fun head hhead => (hcontains _).2 (.inr ⟨head, hhead, rfl⟩), ?_, ?_⟩
  · intro id s name _ hs
    simp at hs
  -- there is no state yet, so only starts can be due
  · intro way hway
    cases way with
    | start rule pos =>
      obtain ⟨p, hp, hstart, hpredicted⟩ := hway
      -- only heads that may start a sentence have been predicted
      rcases (hcontains _).1 hpredicted with hnone | ⟨head, hhead, heq⟩
      · simp at hnone
      · obtain ⟨rfl, hname⟩ := Prod.mk.inj heq
        right
        exact Chart.start_mem_predictAll hg hp hstart (by simp) ⟨head, hhead, hname⟩
    | scan id =>
      obtain ⟨s, hs, _⟩ := hway
      simp at hs
    | join id done =>
      obtain ⟨⟨s, hs, _⟩, _⟩ := hway
      simp at hs

/-- Every run that is met is closed. At its end, where nothing is pending, this says that the chart
honours every way that its states open up. -/
theorem Reached.closed {t : Task} (hg : t.grammar.Coherent) {r : Run} (h : Reached t r) :
    Closed t r := by
  induction h with
  | begin => exact closed_begin hg
  | step hreached _ ih => exact ih.step hg (hreached.placed hg)

end Run

end Utterance
