import Utterance.Proofs.Chart.Shape

/-!
# Look-ups

Filling a chart looks up states by their numbers, productions, statuses and steps by their places, and
words and the lists of a position by the position. A checked step does what a step does, but comes to
nothing as soon as it looks for something that is not there. In a run that never happens: the invariant
of a run says of every look-up why it succeeds.
-/

namespace Utterance

/-- Look-ups that all succeed leave nothing out. -/
theorem mapM_eq_filterMap {α β : Type} {f : α → Option β} {xs : List α}
    (h : ∀ x ∈ xs, (f x).isSome = true) : xs.mapM f = some (xs.filterMap f) := by
  induction xs with
  | nil => rfl
  | cons x xs ih =>
    obtain ⟨hx, hxs⟩ := List.forall_mem_cons.1 h
    obtain ⟨y, hy⟩ := Option.isSome_iff_exists.1 hx
    rw [List.mapM_cons, ih hxs, hy, List.filterMap_cons_some hy]
    rfl

/-- Look-ups that all succeed give the list of what they find. -/
theorem mapM_eq_map {α β : Type} {f : α → Option β} {g : α → β} {xs : List α}
    (h : ∀ x ∈ xs, f x = some (g x)) : xs.mapM f = some (xs.map g) := by
  rw [mapM_eq_filterMap fun x hx => by rw [h x hx, Option.isSome_some], List.filterMap_congr h,
    List.filterMap_eq_map']

/-! ## Steps of an item -/

namespace Task

/-- Looks for the lists of a position. There is one more position than there are words. -/
def checkedPlace (t : Task) (pos : Nat) : Option Unit :=
  if pos < t.length + 1 then some () else none

/-- The step that an item waits for. Its production must be there, and the step must be if not all
steps are matched. -/
def checkedNextStep (t : Task) (i : Item) : Option (Option Step) := do
  let p ← t.grammar.productions[i.rule]?
  if p.steps.length ≤ i.dot then return none
  else
    let step ← p.steps[i.dot]?
    return some step

variable {t : Task} {i : Item}

theorem checkedPlace_eq {pos : Nat} (h : pos ≤ t.length) : t.checkedPlace pos = some () :=
  if_pos (Nat.lt_succ_of_le h)

/-- The production of a proper item is there, and its dot is within its steps or just behind them. -/
theorem Proper.checkedNextStep_eq (h : t.Proper i) :
    t.checkedNextStep i = some (t.nextStep? i) := by
  obtain ⟨p, hp⟩ := h.exists_production
  have hsteps : t.steps i.rule = p.steps := by simp [steps, hp]
  rw [checkedNextStep, hp, nextStep?, hsteps, Option.bind_eq_bind, Option.bind_some]
  split
  · rename_i hdot
    rw [List.getElem?_eq_none hdot]
    rfl
  · rename_i hdot
    rw [List.getElem?_eq_getElem (Nat.lt_of_not_le hdot)]
    rfl

end Task

namespace Chart

variable {t : Task} {c : Chart}

/-! ## Where a way leads -/

/-- Score of a wildcard step. The step before must be there if it is not the first. -/
def checkedWildScore (steps : List Step) (dot : Nat) : Option Score :=
  if 0 < dot then do
    let before ← steps[dot - 1]?
    return ⟨1, if before.isWild then 0 else 1, 0⟩
  else return ⟨1, 1, 0⟩

/-- The step before a wildcard is there, if the wildcard is not the first. -/
theorem checkedWildScore_eq {steps : List Step} {dot : Nat} (h : dot ≤ steps.length) :
    checkedWildScore steps dot = some (wildScore steps dot) := by
  unfold checkedWildScore wildScore
  split
  · rename_i hdot
    have hlt : dot - 1 < steps.length := by omega
    rw [List.getElem?_eq_getElem hlt]
    simp [hdot]
  · rename_i hdot
    simp [hdot]

/-- The state that a way leads to. The states that it starts from must be there, and for a scan the
word must be. -/
def checkedState (t : Task) (c : Chart) : Way → Option (Option ChartState)
  | .start rule pos => return some { item := ⟨rule, pos, pos, 0⟩ }
  | .scan id => do
    let s ← c.states[id]?
    let word ← t.words[s.item.stop]?
    match ← t.checkedNextStep s.item with
    | none => return none
    | some step =>
      if step.nonterminal then return none
      else if step.isWild then
        let cost ← checkedWildScore (t.steps s.item.rule) s.item.dot
        return some (advanced id s (s.item.stop + 1) none cost)
      else if Text.lower step.symbol == word then
        return some (advanced id s (s.item.stop + 1) none ⟨0, 0, 0⟩)
      else return none
  | .join id done => do
    let s ← c.states[id]?
    let d ← c.states[done]?
    return some (advanced id s d.item.stop (some done) d.score)

/-- A valid way that does not lead beyond the sentence starts from what is there, so no look-up
fails while the state it leads to is made. -/
theorem WellFormed.checkedState_eq (hc : c.WellFormed t) {way : Way} {pos : Nat}
    (hvalid : c.Valid t way) (hleads : c.LeadsTo pos way) (hpos : pos ≤ t.length) :
    checkedState t c way = some (c.state? t way) := by
  cases way with
  | start rule start => rfl
  | scan id =>
    obtain ⟨s, hs, hstop⟩ := hleads
    have hproper := hc.proper hs
    -- the way does not lead beyond the sentence, so there is a word to scan
    have hword : s.item.stop < t.words.size := by
      rw [← hstop] at hpos
      exact hpos
    simp only [checkedState, state?, hs, Array.getElem?_eq_getElem hword, hproper.checkedNextStep_eq,
      Option.bind_eq_bind, Option.bind_some, checkedWildScore_eq hproper.dot_le]
    cases t.nextStep? s.item with
    | none => rfl
    | some step =>
      simp only [Option.bind_some]
      split
      · rfl
      · split
        · rfl
        · split <;> rfl
  | join id done =>
    obtain ⟨s, d, hs, hd, _⟩ := hvalid
    simp [checkedState, state?, hs, hd]

/-! ## Offers and completions -/

/-- Offers a state to the chart. The state of a known item must be there, and for a new one the lists of
the position where it ends. -/
def checkedOffer (t : Task) (c : Chart) (s : ChartState) : Option (Chart × Option Nat) :=
  match c.index[s.item]? with
  | some id => do
    let old ← c.states[id]?
    if s.score < old.score then return (c.improve id s, some id) else return (c, none)
  | none => do
    t.checkedPlace s.item.stop
    let _ ← t.checkedNextStep s.item
    return (c.insert t s, none)

/-- No look-up of an offer fails: the index names states that are there, and the state offered ends
within the sentence. -/
theorem WellFormed.checkedOffer_eq (hc : c.WellFormed t) {s : ChartState} (hs : t.Proper s.item) :
    checkedOffer t c s = some (c.offer t s) := by
  simp only [checkedOffer, offer, hs.fits, Bool.not_true, Bool.false_eq_true, if_false]
  cases hindex : c.index[s.item]? with
  | some id =>
    obtain ⟨old, hold, _⟩ := hc.index.1 hindex
    simp only [hold, Option.bind_eq_bind, Option.bind_some]
    split <;> rfl
  -- a proper item ends at a position of the sentence and is never refused
  | none =>
    simp only [Task.checkedPlace_eq hs.stop_le, hs.checkedNextStep_eq]
    rfl

/-- The ways that a finished state opens up. The state and its production must be there. -/
def checkedCompletions (t : Task) (c : Chart) (id : Nat) : Option (List Way) := do
  let s ← c.states[id]?
  match ← t.checkedNextStep s.item with
  | some _ => return []
  | none =>
    let p ← t.grammar.productions[s.item.rule]?
    return (c.waitingFor s.item.start (Text.lower p.head)).toList.map (.join · id)

/-- No look-up of a completion fails for a state that is there. -/
theorem WellFormed.checkedCompletions_eq (hc : c.WellFormed t) {id : Nat} {s : ChartState}
    (hs : c.states[id]? = some s) : checkedCompletions t c id = some (c.completions t id) := by
  have hproper := hc.proper hs
  obtain ⟨p, hp⟩ := hproper.exists_production
  simp only [checkedCompletions, completions, hs, hproper.checkedNextStep_eq, hp, Task.head,
    Option.bind_eq_bind, Option.bind_some]
  -- the head of the production is looked up only where the state is finished
  cases hnext : t.nextStep? s.item with
  | none =>
    rw [if_pos (Task.isFinished_iff.2 hnext)]
    rfl
  | some step =>
    have hunfinished : ¬ t.isFinished s.item = true := by
      rw [Task.isFinished_iff, hnext]
      exact Option.some_ne_none step
    rw [if_neg hunfinished]
    rfl

/-! ## Predictions -/

/-- The word at a position, which is empty at the end of the sentence only. -/
def checkedNextWord (t : Task) (pos : Nat) : Option String :=
  if pos < t.length then t.words[pos]? else some ""

/-- The next word is looked up only in front of the end of the sentence. -/
theorem checkedNextWord_eq (t : Task) (pos : Nat) :
    checkedNextWord t pos = some ((t.words[pos]?).getD "") := by
  unfold checkedNextWord
  split
  · rename_i hpos
    rw [Array.getElem?_eq_getElem hpos, Option.getD_some]
  · rename_i hpos
    rw [Array.getElem?_eq_none (Nat.le_of_not_lt hpos), Option.getD_none]

/-- The start of a production at a position, if it may start there. Its status must be listed under its
number, and it must have a first step. -/
def checkedStart (t : Task) (pos : Nat) (p : Production) : Option (Option Way) := do
  let next ← checkedNextWord t pos
  let listed ← t.grammar.productions[p.id]?
  if listed.status.isUsable then
    let first ← p.steps[0]?
    if !t.lookahead || first.nonterminal || first.isWild || Text.lower first.symbol == next then
      return some (.start p.id pos)
    else return none
  else return none

/-- A production that is listed under a head has a number of its own and a first step, so trying it
fails on nothing. -/
theorem checkedStart_eq (hg : t.grammar.Coherent) {head : String} {p : Production}
    (hp : p ∈ t.grammar.rulesFor head) (pos : Nat) :
    checkedStart t pos p = some (if mayStart t pos p then some (.start p.id pos) else none) := by
  have hlisted := (hg.mem_rulesFor.1 hp).1
  -- no production is empty
  obtain ⟨first, rest, hsteps⟩ := List.exists_cons_of_ne_nil (hg.steps_ne_nil hlisted)
  simp only [checkedStart, mayStart, checkedNextWord_eq, hlisted, hsteps, List.getElem?_cons_zero,
    List.head?_cons, Option.bind_eq_bind, Option.bind_some, Bool.and_eq_true]
  cases p.status.isUsable with
  | false => rfl
  | true =>
    simp only [if_true, true_and]
    split <;> rfl

/-- Predicts a head at a position. There must be lists for the position, and all productions of the head
must be there. -/
def checkedPredict (t : Task) (c : Chart) (head : String) (pos : Nat) :
    Option (Chart × List Way) := do
  t.checkedPlace pos
  let name := Text.lower head
  if c.predicted.contains (pos, name) then return (c, [])
  else
    let rules ← (t.grammar.byHead.getD name #[]).toList.mapM (t.grammar.productions[·]?)
    let starts ← rules.mapM (checkedStart t pos)
    return ({ c with predicted := c.predicted.insert (pos, name) }, starts.filterMap id)

/-- No look-up of a prediction fails at a position of the sentence. The numbers in the index are
those of productions, and each of them has a first step. -/
theorem checkedPredict_eq (hg : t.grammar.Coherent) (c : Chart) (head : String) {pos : Nat}
    (hpos : pos ≤ t.length) : checkedPredict t c head pos = some (c.predict t head pos) := by
  -- every number of the index names a production, so no look-up fails
  have hrules : (t.grammar.byHead.getD (Text.lower head) #[]).toList.mapM
      (t.grammar.productions[·]?) = some (t.grammar.rulesFor head) := by
    apply mapM_eq_filterMap
    intro i hi
    simp only [hg.byHead_eq, List.mem_filter, List.mem_range] at hi
    rw [Array.getElem?_eq_getElem hi.1, Option.isSome_some]
  have hstarts : (t.grammar.rulesFor head).mapM (checkedStart t pos)
      = some ((t.grammar.rulesFor head).map fun p =>
        if mayStart t pos p then some (.start p.id pos) else none) :=
    mapM_eq_map fun p hp => checkedStart_eq hg hp pos
  have hways : ∀ rules : List Production,
      (rules.map fun p => if mayStart t pos p then some (Way.start p.id pos) else none).filterMap id
        = (rules.filter (mayStart t pos)).map fun p => Way.start p.id pos := by
    intro rules
    rw [List.filterMap_map, ← List.filterMap_eq_filter, List.map_filterMap]
    apply List.filterMap_congr
    intro p _
    by_cases hstart : mayStart t pos p = true <;> simp [hstart, Option.guard]
  -- with all look-ups answered, both sides are the same function of the productions
  simp only [checkedPredict, predict, Task.checkedPlace_eq hpos, hrules, Option.bind_eq_bind,
    Option.bind_some]
  split
  · rfl
  · rw [hstarts, ← hways]
    rfl

/-- Predicts several heads at a position. -/
def checkedPredictAll (t : Task) (c : Chart) (pos : Nat) : List String → Option (Chart × List Way)
  | [] => return (c, [])
  | head :: rest => do
    let (c, ways) ← checkedPredict t c head pos
    let (c, more) ← checkedPredictAll t c pos rest
    return (c, ways ++ more)

/-- Nor does one of several predictions. -/
theorem checkedPredictAll_eq (hg : t.grammar.Coherent) (c : Chart) {pos : Nat} (hpos : pos ≤ t.length)
    (heads : List String) : checkedPredictAll t c pos heads = some (c.predictAll t pos heads) := by
  induction heads generalizing c with
  | nil => rfl
  | cons head rest ih =>
    simp only [checkedPredictAll, predictAll, checkedPredict_eq hg c head hpos, ih,
      Option.bind_eq_bind, Option.bind_some]
    rfl

end Chart

namespace Run

variable {t : Task} {r : Run}

/-! ## Steps of a run -/

/-- The first ways of a sentence. -/
def checkedBegin (t : Task) : Option Run := do
  let (c, ways) ← Chart.checkedPredictAll t {} 0 t.grammar.topHeads
  return ⟨c, ways, 0, 0⟩

/-- Takes up a state, which must be there. -/
def checkedTakeUp (t : Task) (c : Chart) (pos id : Nat) : Option (Chart × List Chart.Way) := do
  let s ← c.states[id]?
  match ← t.checkedNextStep s.item with
  | some step => if step.nonterminal then c.checkedPredict t step.symbol pos else return (c, [])
  | none =>
    let ways ← c.checkedCompletions t id
    return (c, ways)

/-- One step. All that it looks up must be there: the lists of the position, and the word that is to be
scanned after that. -/
def checkedStep (t : Task) (r : Run) : Option Run :=
  match r.todo with
  | way :: rest => do
    match ← r.chart.checkedState t way with
    | none => return ⟨r.chart, rest, r.pos, r.taken⟩
    | some s =>
      let (chart, improved) ← r.chart.checkedOffer t s
      let more ← match improved with
        | some id => chart.checkedCompletions t id
        | none => some []
      return ⟨chart, more ++ rest, r.pos, r.taken⟩
  | [] => do
    t.checkedPlace r.pos
    match (r.chart.endingAt r.pos)[r.taken]? with
    | some id =>
      let (chart, ways) ← checkedTakeUp t r.chart r.pos id
      return ⟨chart, ways, r.pos, r.taken + 1⟩
    | none =>
      let _ ← t.words[r.pos]?
      return ⟨r.chart, (r.chart.endingAt r.pos).toList.map .scan, r.pos + 1, 0⟩

/-- The beginning of a run looks up nothing out of range. -/
theorem checkedBegin_eq (hg : t.grammar.Coherent) : checkedBegin t = some (.begin t) := by
  simp only [checkedBegin, begin, Chart.checkedPredictAll_eq hg {} (Nat.zero_le _),
    Option.bind_eq_bind, Option.bind_some]
  rfl

/-- No look-up fails when a state that is there is taken up. -/
theorem checkedTakeUp_eq (hg : t.grammar.Coherent) {c : Chart} (hc : c.WellFormed t) {pos id : Nat}
    {s : ChartState} (hs : c.states[id]? = some s) (hpos : pos ≤ t.length) :
    checkedTakeUp t c pos id = some (takeUp t c pos id) := by
  simp only [checkedTakeUp, takeUp, hs, (hc.proper hs).checkedNextStep_eq, hc.checkedCompletions_eq hs,
    Chart.checkedPredict_eq hg _ _ hpos, Option.bind_eq_bind, Option.bind_some]
  cases t.nextStep? s.item with
  | none => rfl
  | some step =>
    simp only
    split <;> rfl

/-- A state that an offer improves is there. -/
theorem exists_of_offer {c : Chart} {s : ChartState} {id : Nat} (h : (c.offer t s).2 = some id) :
    ∃ q, (c.offer t s).1.states[id]? = some q := by
  rcases c.offer_cases t s with ⟨hoffer, _⟩ | ⟨_, _, hoffer⟩ | ⟨old, known, _, hold, _, hoffer⟩
  · rw [hoffer] at h
    cases h
  · rw [hoffer] at h
    cases h
  · rw [hoffer] at h ⊢
    cases h
    exact ⟨s, Chart.getElem?_improve_self hold s⟩

/-- No look-up of a step is out of range. With a way pending this follows from what the invariant
says about it; without one, from where the run stands in its lists and in the sentence. -/
theorem Placed.checkedStep_eq (hg : t.grammar.Coherent) (h : Placed t r)
    (hgoing : r.halted t = false) : checkedStep t r = some (r.step t) := by
  have hnext := (h.step hg hgoing).wellFormed
  obtain ⟨c, todo, pos, taken⟩ := r
  cases todo with
  | cons way rest =>
    have hway : way ∈ way :: rest := List.mem_cons_self ..
    have hstate := h.wellFormed.checkedState_eq (h.valid way hway) (h.leadsTo way hway) h.pos_le
    simp only [checkedStep, Run.step, offerWay, hstate, Option.bind_eq_bind, Option.bind_some]
      at hnext ⊢
    cases hleads : c.state? t way with
    | none => rfl
    | some s =>
      have hproper := (h.leads hg hway hleads).2
      simp only [hleads, h.wellFormed.checkedOffer_eq hproper, Option.bind_some] at hnext ⊢
      cases himproved : (c.offer t s).2 with
      | none => rfl
      -- what follows from an improved state is looked up in the chart after the offer
      | some id =>
        obtain ⟨q, hq⟩ := exists_of_offer himproved
        simp only [hnext.checkedCompletions_eq hq, Option.bind_some]
        rfl
  | nil =>
    simp only [checkedStep, Run.step, Task.checkedPlace_eq h.pos_le, Option.pure_def,
      Option.bind_eq_bind, Option.bind_some]
    cases hid : (c.endingAt pos)[taken]? with
    | some id =>
      obtain ⟨s, hs, _⟩ := h.exists_next hid
      simp only [checkedTakeUp_eq hg h.wellFormed hs h.pos_le, Option.bind_some]
    -- the run has not come to its end, so there is a next word
    | none =>
      have htaken : (c.endingAt pos).size ≤ taken := by simpa using hid
      have hpos : pos < t.words.size := by
        by_contra hge
        have hhalted : halted t ⟨c, [], pos, taken⟩ = true :=
          halted_iff.2 ⟨rfl, htaken, Nat.le_of_not_lt hge⟩
        rw [hhalted] at hgoing
        cases hgoing
      simp only [Array.getElem?_eq_getElem hpos, Option.bind_some]

end Run

end Utterance
