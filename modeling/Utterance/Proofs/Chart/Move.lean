import Mathlib.Logic.Function.Iterate
import Utterance.Chart.Run
import Utterance.Proofs.Score

/-!
# What a step of a run can do

A run fills a chart by small steps. This module says once what such a step can do, with everything it
has checked before. The invariants of a run follow from that, case by case, without a look at how the
step is computed.
-/

namespace Utterance

/-! ## Later charts -/

namespace Chart

/-- A later chart keeps every state under its number and for its item; a state that has changed is
better. -/
def Extends (c c' : Chart) : Prop :=
  ∀ (id : Nat) (s : ChartState), c.states[id]? = some s →
    ∃ s', c'.states[id]? = some s' ∧ s'.item = s.item ∧ (s' = s ∨ s'.score < s.score)

theorem Extends.refl (c : Chart) : c.Extends c := fun _ s hs => ⟨s, hs, rfl, .inl rfl⟩

theorem getElem?_insert (t : Task) (c : Chart) (s : ChartState) (id : Nat) :
    (c.insert t s).states[id]? = if id = c.states.size then some s else c.states[id]? := by
  simp [insert, Array.getElem?_push]

/-- A new state leaves the others alone. -/
theorem getElem?_insert_of_some (t : Task) {c : Chart} (s : ChartState) {id : Nat} {q : ChartState}
    (hq : c.states[id]? = some q) : (c.insert t s).states[id]? = some q := by
  have hlt : id < c.states.size := (Array.getElem?_eq_some_iff.1 hq).1
  rw [getElem?_insert, if_neg (Nat.ne_of_lt hlt)]
  exact hq

/-- The states of a chart after an improvement: one number names the new state, the others what they
did. -/
theorem getElem?_improve {c : Chart} {id : Nat} {old : ChartState} (hold : c.states[id]? = some old)
    (s : ChartState) (j : Nat) :
    (c.improve id s).states[j]? = if j = id then some s else c.states[j]? := by
  have hlt : id < c.states.size := (Array.getElem?_eq_some_iff.1 hold).1
  rw [improve, Array.getElem?_setIfInBounds]
  by_cases hj : id = j
  · rw [if_pos hj, if_pos hlt, if_pos hj.symm]
  · rw [if_neg hj, if_neg (Ne.symm hj)]

/-- An improved number names the improved state. -/
theorem getElem?_improve_self {c : Chart} {id : Nat} {old : ChartState}
    (hold : c.states[id]? = some old) (s : ChartState) :
    (c.improve id s).states[id]? = some s := by
  rw [getElem?_improve hold, if_pos rfl]

/-- The states of the other numbers stay as they are. -/
theorem getElem?_improve_of_ne {c : Chart} {id j : Nat} {old : ChartState}
    (hold : c.states[id]? = some old) (s : ChartState) (hj : j ≠ id) :
    (c.improve id s).states[j]? = c.states[j]? := by
  rw [getElem?_improve hold, if_neg hj]

/-- A chart retains another if it has a state for the same item under each of its numbers. -/
def Retains (c c' : Chart) : Prop :=
  ∀ (id : Nat) (s : ChartState), c.states[id]? = some s →
    ∃ s', c'.states[id]? = some s' ∧ s'.item = s.item

/-- A later chart retains an earlier one. -/
theorem Extends.retains {c c' : Chart} (h : c.Extends c') : c.Retains c' := by
  intro id s hs
  obtain ⟨s', hs', hitem, _⟩ := h id s hs
  exact ⟨s', hs', hitem⟩

/-- A state never gets worse. -/
theorem Extends.exists_le {c c' : Chart} (h : c.Extends c') {id : Nat} {s : ChartState}
    (hs : c.states[id]? = some s) :
    ∃ s', c'.states[id]? = some s' ∧ s'.item = s.item ∧ s'.score ≤ s.score := by
  obtain ⟨s', hs', hitem, hscore⟩ := h id s hs
  refine ⟨s', hs', hitem, ?_⟩
  rcases hscore with rfl | hlt
  · exact le_refl _
  · exact le_of_lt hlt

theorem extends_of_states_eq {c c' : Chart} (h : c'.states = c.states) : c.Extends c' :=
  fun _ s hs => ⟨s, by rw [h]; exact hs, rfl, .inl rfl⟩

/-- Improving a state leaves all items where they are. -/
theorem retains_of_improve {c : Chart} {id : Nat} {old s : ChartState}
    (hold : c.states[id]? = some old) (hitem : s.item = old.item) : (c.improve id s).Retains c := by
  intro j q hq
  rw [getElem?_improve hold] at hq
  split at hq
  · rename_i hj
    cases hq
    exact ⟨old, by rw [hj]; exact hold, hitem.symm⟩
  · exact ⟨q, hq, rfl⟩

theorem extends_insert (t : Task) (c : Chart) (s : ChartState) : c.Extends (c.insert t s) :=
  fun _ q hq => ⟨q, getElem?_insert_of_some t s hq, rfl, .inl rfl⟩

/-- Improving a state leads to a later chart, as the new one is for the same item and better. -/
theorem extends_improve {c : Chart} {id : Nat} {old s : ChartState} (hold : c.states[id]? = some old)
    (hitem : s.item = old.item) (hbetter : s.score < old.score) : c.Extends (c.improve id s) := by
  intro j q hq
  by_cases hj : j = id
  -- the improved state keeps its item and gets a better score, all others stay
  · subst hj
    rw [hold, Option.some.injEq] at hq
    subst hq
    exact ⟨s, getElem?_improve_self hold s, hitem, .inr hbetter⟩
  · exact ⟨q, by rw [getElem?_improve_of_ne hold s hj, hq], rfl, .inl rfl⟩

end Chart

/-- Whether an item waits for a head, given in lower case. -/
def Task.waitsFor (t : Task) (i : Item) (name : String) : Bool :=
  (t.nextStep? i).any fun step => step.nonterminal && Text.lower step.symbol == name

/-- An item waits for a head just if its next step is that head, up to the case of its letters. -/
theorem Task.waitsFor_iff {t : Task} {i : Item} {name : String} :
    t.waitsFor i name = true
      ↔ ∃ step, t.nextStep? i = some step ∧ step.nonterminal = true
        ∧ Text.lower step.symbol = name := by
  unfold waitsFor
  cases t.nextStep? i with
  | none => simp
  | some step => simp

namespace Run

/-! ## Steps -/

/-- What a step of a run can do, with what it has checked. -/
inductive Move (t : Task) (r : Run) : Run → Prop where
  /-- The next way leads nowhere, or to an item whose state is as good. -/
  | settle {way : Chart.Way} {rest : List Chart.Way} (todo : r.todo = way :: rest)
      (settled : ∀ s, r.chart.state? t way = some s → t.fits s.item = true →
        ∃ id, r.chart.index[s.item]? = some id
          ∧ ∀ old, r.chart.states[id]? = some old → old.score ≤ s.score) :
      Move t r ⟨r.chart, rest, r.pos, r.taken⟩
  /-- The next way leads to a new item. -/
  | add {way : Chart.Way} {rest : List Chart.Way} {s : ChartState} (todo : r.todo = way :: rest)
      (leads : r.chart.state? t way = some s) (fits : t.fits s.item = true)
      (new : r.chart.index[s.item]? = none) :
      Move t r ⟨r.chart.insert t s, rest, r.pos, r.taken⟩
  /-- The next way leads to a known item and is better than its state. -/
  | improve {way : Chart.Way} {rest : List Chart.Way} {s old : ChartState} {id : Nat}
      (todo : r.todo = way :: rest) (leads : r.chart.state? t way = some s)
      (known : r.chart.index[s.item]? = some id) (holds : r.chart.states[id]? = some old)
      (better : s.score < old.score) :
      Move t r ⟨r.chart.improve id s, (r.chart.improve id s).completions t id ++ rest, r.pos,
        r.taken⟩
  /-- A state is taken up from which nothing follows: its next step is a word, or a head that has
  been predicted. -/
  | pass {id : Nat} (todo : r.todo = []) (next : (r.chart.endingAt r.pos)[r.taken]? = some id)
      (unfinished : ∀ s, r.chart.states[id]? = some s → t.nextStep? s.item ≠ none)
      (predicted : ∀ s name, r.chart.states[id]? = some s → t.waitsFor s.item name = true →
        r.chart.predicted.contains (r.pos, name) = true) :
      Move t r ⟨r.chart, [], r.pos, r.taken + 1⟩
  /-- A state is taken up that waits for a head, which is now predicted. -/
  | predict {id : Nat} {s : ChartState} {step : Step} (todo : r.todo = [])
      (next : (r.chart.endingAt r.pos)[r.taken]? = some id) (holds : r.chart.states[id]? = some s)
      (waits : t.nextStep? s.item = some step) (nonterminal : step.nonterminal = true) :
      Move t r
        ⟨{ r.chart with
            predicted := r.chart.predicted.insert (r.pos, Text.lower step.symbol) },
          ((t.grammar.rulesFor step.symbol).filter (Chart.mayStart t r.pos)).map
            fun p => .start p.id r.pos,
          r.pos, r.taken + 1⟩
  /-- A finished state is taken up. -/
  | complete {id : Nat} {s : ChartState} (todo : r.todo = [])
      (next : (r.chart.endingAt r.pos)[r.taken]? = some id) (holds : r.chart.states[id]? = some s)
      (finished : t.nextStep? s.item = none) :
      Move t r ⟨r.chart, r.chart.completions t id, r.pos, r.taken + 1⟩
  /-- All states that end here are taken up, and the next word is scanned. -/
  | advance (todo : r.todo = []) (done : (r.chart.endingAt r.pos).size ≤ r.taken) :
      Move t r ⟨r.chart, (r.chart.endingAt r.pos).toList.map .scan, r.pos + 1, 0⟩

section Equations

variable {t : Task} {r : Run}

/-- With a way pending, a step offers where it leads; if this improves a state, what follows from
that one is put in front of the rest. -/
theorem step_of_cons {way : Chart.Way} {rest : List Chart.Way} (htodo : r.todo = way :: rest)
    {c : Chart} {improved : Option Nat} (hoffer : offerWay t r.chart way = (c, improved)) :
    r.step t = ⟨c, (improved.map (c.completions t)).getD [] ++ rest, r.pos, r.taken⟩ := by
  obtain ⟨chart, todo, pos, taken⟩ := r
  simp only at htodo hoffer
  subst htodo
  simp only [step, hoffer]
  cases improved <;> rfl

/-- Without pending ways, a step takes up the next state that ends at the position of the run. -/
theorem step_of_next (htodo : r.todo = []) {id : Nat}
    (hnext : (r.chart.endingAt r.pos)[r.taken]? = some id) :
    r.step t
      = ⟨(takeUp t r.chart r.pos id).1, (takeUp t r.chart r.pos id).2, r.pos, r.taken + 1⟩ := by
  obtain ⟨chart, todo, pos, taken⟩ := r
  simp only at htodo hnext
  subst htodo
  simp only [step, hnext]

/-- With all of these taken up, a step moves on to the next word. -/
theorem step_of_done (htodo : r.todo = []) (hnext : (r.chart.endingAt r.pos)[r.taken]? = none) :
    r.step t = ⟨r.chart, (r.chart.endingAt r.pos).toList.map .scan, r.pos + 1, 0⟩ := by
  obtain ⟨chart, todo, pos, taken⟩ := r
  simp only at htodo hnext
  subst htodo
  simp only [step, hnext]

end Equations

/-- What comes of offering where a way leads: nothing, since the way leads nowhere, to an item that does
not fit or to one whose state is as good; or a new state; or a better one for a known item. -/
theorem offerWay_cases (t : Task) (c : Chart) (way : Chart.Way) :
    (offerWay t c way = (c, none)
        ∧ ∀ s, c.state? t way = some s → t.fits s.item = true →
          ∃ id, c.index[s.item]? = some id ∧ ∀ old, c.states[id]? = some old → old.score ≤ s.score)
      ∨ (∃ s, c.state? t way = some s ∧ t.fits s.item = true ∧ c.index[s.item]? = none
        ∧ offerWay t c way = (c.insert t s, none))
      ∨ ∃ s old id, c.state? t way = some s ∧ c.index[s.item]? = some id ∧ c.states[id]? = some old
        ∧ s.score < old.score ∧ offerWay t c way = (c.improve id s, some id) := by
  -- a way that leads nowhere offers nothing
  cases hlead : c.state? t way with
  | none => exact .inl ⟨by simp [offerWay, hlead], fun s hs => nomatch hs⟩
  | some s =>
    have hoffer : offerWay t c way = c.offer t s := by simp [offerWay, hlead]
    simp only [Option.some.injEq, forall_eq', hoffer]
    rcases c.offer_cases t s with
      ⟨hsame, hknown⟩ | ⟨hfits, hindex, hadded⟩ | ⟨old, id, hindex, hold, hbetter, himproved⟩
    · refine .inl ⟨hsame, fun hfits => ?_⟩
      obtain ⟨id, hindex, hscore⟩ := hknown hfits
      exact ⟨id, hindex, fun old hold => not_lt.1 (hscore old hold)⟩
    · exact .inr (.inl ⟨s, rfl, hfits, hindex, hadded⟩)
    · exact .inr (.inr ⟨s, old, id, rfl, hindex, hold, hbetter, himproved⟩)

/-- Working off a way settles it, adds a state or improves one. -/
theorem move_step_cons {t : Task} {r : Run} {way : Chart.Way} {rest : List Chart.Way}
    (htodo : r.todo = way :: rest) : Move t r (r.step t) := by
  rcases offerWay_cases t r.chart way with
    ⟨hoffer, hsettled⟩ | ⟨s, hlead, hfits, hnew, hoffer⟩ | ⟨s, old, id, hlead, hindex, hold, hbetter, hoffer⟩
  · rw [step_of_cons htodo hoffer]
    exact .settle htodo hsettled
  · rw [step_of_cons htodo hoffer]
    exact .add htodo hlead hfits hnew
  · rw [step_of_cons htodo hoffer]
    exact .improve htodo hlead hindex hold hbetter

/-- What comes of taking up a state: nothing, if its next step is a word or a head that has been
predicted; or that head is predicted; or the state is finished and is joined to those that wait for it. -/
theorem takeUp_cases (t : Task) (c : Chart) (pos id : Nat) :
    (takeUp t c pos id = (c, [])
        ∧ (∀ s, c.states[id]? = some s → t.nextStep? s.item ≠ none)
        ∧ ∀ s name, c.states[id]? = some s → t.waitsFor s.item name = true →
          c.predicted.contains (pos, name) = true)
      ∨ (∃ s step, c.states[id]? = some s ∧ t.nextStep? s.item = some step
        ∧ step.nonterminal = true
        ∧ takeUp t c pos id
          = ({ c with predicted := c.predicted.insert (pos, Text.lower step.symbol) },
            ((t.grammar.rulesFor step.symbol).filter (Chart.mayStart t pos)).map
              fun p => .start p.id pos))
      ∨ ∃ s, c.states[id]? = some s ∧ t.nextStep? s.item = none
        ∧ takeUp t c pos id = (c, c.completions t id) := by
  cases hs : c.states[id]? with
  -- a number that names no state, which cannot be told from here to be impossible
  | none => exact .inl ⟨by simp [takeUp, hs], fun s h => (nomatch h), fun s _ h => nomatch h⟩
  | some s =>
    simp only [Option.some.injEq, forall_eq']
    cases hwait : t.nextStep? s.item with
    | none => exact .inr (.inr ⟨s, rfl, hwait, by simp [takeUp, hs, hwait]⟩)
    | some st =>
      by_cases hnon : st.nonterminal = true
      -- a head is predicted once at each position
      · by_cases hseen : c.predicted.contains (pos, Text.lower st.symbol) = true
        · refine .inl ⟨by simp only [takeUp, hs, hwait, hnon, if_true, Chart.predict, hseen],
            by simp, ?_⟩
          rintro _ name rfl hname
          obtain ⟨st', hst', _, rfl⟩ := Task.waitsFor_iff.1 hname
          rw [hwait, Option.some.injEq] at hst'
          exact hst' ▸ hseen
        · exact .inr (.inl ⟨s, st, rfl, hwait, hnon, by
            simp only [takeUp, hs, hwait, hnon, if_true, Chart.predict, if_neg hseen]⟩)
      -- a word waits to be scanned
      · refine .inl ⟨by simp [takeUp, hs, hwait, hnon], by simp, ?_⟩
        rintro _ name rfl hname
        obtain ⟨st', hst', hnon', _⟩ := Task.waitsFor_iff.1 hname
        rw [hwait, Option.some.injEq] at hst'
        exact absurd (hst' ▸ hnon') hnon

/-- Without pending ways the next state is taken up, or the next word is scanned. A state that is
taken up waits for a head, is finished, or has nothing to do. -/
theorem move_step_nil {t : Task} {r : Run} (htodo : r.todo = []) : Move t r (r.step t) := by
  cases hnext : (r.chart.endingAt r.pos)[r.taken]? with
  -- every state that ends here has been taken up
  | none =>
    rw [step_of_done htodo hnext]
    exact .advance htodo (by simpa using hnext)
  | some id =>
    rw [step_of_next htodo hnext]
    -- the three things that can come of taking a state up
    rcases takeUp_cases t r.chart r.pos id with
      ⟨htake, hwaits, hpredicted⟩ | ⟨s, st, hs, hwaits, hnon, htake⟩ | ⟨s, hs, hfinished, htake⟩
    · rw [htake]
      exact .pass htodo hnext hwaits hpredicted
    · rw [htake]
      exact .predict htodo hnext hs hwaits hnon
    · rw [htake]
      exact .complete htodo hnext hs hfinished

/-- Every step does one of the things above. The lemmas about runs take a step apart by this one and
never open the definition of `step`. -/
theorem move_step (t : Task) (r : Run) : Move t r (r.step t) := by
  cases htodo : r.todo with
  | nil => exact move_step_nil htodo
  | cons way rest => exact move_step_cons htodo

/-! ## Whole runs -/

/-- The runs that are met on the way from the beginning to the end. -/
inductive Reached (t : Task) : Run → Prop where
  | begin : Reached t (.begin t)
  | step {r : Run} (reached : Reached t r) (going : r.halted t = false) : Reached t (r.step t)

/-- A run that goes on is followed to its end. -/
theorem Reached.finish {t : Task} {r : Run} (h : Reached t r) : Reached t (r.finish t) := by
  fun_induction Run.finish t r with
  | case1 r hhalted => exact h
  | case2 r hhalted ih => exact ih (h.step (by simpa using hhalted))

/-- A run is finished when it has come to its end, and not before. -/
theorem halted_finish (t : Task) (r : Run) : (r.finish t).halted t = true := by
  fun_induction Run.finish t r with
  | case1 r hhalted => exact hhalted
  | case2 r hhalted ih => exact ih

/-- The end of a run is some number of steps away. -/
theorem exists_iterate_eq_finish (t : Task) (r : Run) : ∃ n, (step t)^[n] r = r.finish t := by
  fun_induction Run.finish t r with
  | case1 r hhalted => exact ⟨0, rfl⟩
  | case2 r hhalted ih =>
    obtain ⟨n, hn⟩ := ih
    exact ⟨n + 1, by rw [Function.iterate_succ_apply, hn]⟩

/-- A run has come to its end when nothing is pending, all states have been taken up, and no word is
left. -/
theorem halted_iff {t : Task} {r : Run} :
    r.halted t = true
      ↔ r.todo = [] ∧ (r.chart.endingAt r.pos).size ≤ r.taken ∧ t.length ≤ r.pos := by
  simp [halted, and_assoc]

end Run

end Utterance
