import Utterance.Proofs.Chart.Checked
import Utterance.Proofs.Parse.Termination

/-!
# The tables of a chart

A chart keeps its states in one list and three tables beside it: the number of each item, the states
that end at a position, and the states that wait for a head there. After every offer that is made while
a chart is filled, the tables say exactly what the list says. A state keeps the number that it was given,
its place in the list, and since every state comes after those that were there, the tables list states
in the order in which they were found. Nothing that is looked up on the way, nor in the choice of the
best candidate after that, is out of range.
-/

namespace Utterance

namespace Chart

/-! ## Items in the order of their states -/

/-- The items of the states, in the order in which they were found. -/
def items (c : Chart) : List Item := c.states.toList.map (·.item)

variable {t : Task} {c c' : Chart}

theorem getElem?_items (c : Chart) (id : Nat) : c.items[id]? = (c.states[id]?).map (·.item) := by
  rw [items, List.getElem?_map, Array.getElem?_toList]

theorem length_items (c : Chart) : c.items.length = c.states.size := by
  rw [items, List.length_map, Array.length_toList]

theorem items_insert (t : Task) (c : Chart) (s : ChartState) :
    (c.insert t s).items = c.items ++ [s.item] := by
  simp [items, insert]

/-- An improved state keeps its item. -/
theorem items_improve {id : Nat} {old s : ChartState} (hold : c.states[id]? = some old)
    (hitem : s.item = old.item) : (c.improve id s).items = c.items := by
  apply List.ext_getElem?
  intro j
  rw [getElem?_items, getElem?_items, getElem?_improve hold]
  split
  · rename_i hj
    rw [hj, hold, Option.map_some, Option.map_some, hitem]
  · rfl

theorem WellFormed.index_eq_some_iff (h : c.WellFormed t) {i : Item} {id : Nat} :
    c.index[i]? = some id ↔ c.items[id]? = some i := by
  rw [h.index, getElem?_items, Option.map_eq_some_iff]

/-- Items are told apart by the numbers that they are given. -/
theorem WellFormed.nodup_items (h : c.WellFormed t) : c.items.Nodup := by
  -- the index maps the list of items to all numbers in turn
  have hnumbers : c.items.map (c.index[·]?) = (List.range c.items.length).map some := by
    apply List.ext_getElem
    · simp
    · intro id hid _
      rw [List.getElem_map, List.getElem_map, List.getElem_range, h.index_eq_some_iff,
        List.getElem?_eq_getElem]
  apply List.Nodup.of_map (c.index[·]?)
  rw [hnumbers]
  exact List.nodup_range.map fun _ _ => Option.some.inj

/-! ## Tables -/

/-- The tables of a chart agree with the list of its states, and the items lie within the grammar and the
sentence. -/
structure Tabulated (t : Task) (c : Chart) : Prop where
  /-- No item has two states. -/
  nodup : c.items.Nodup
  /-- The number of an item, under which pointers and tables know its state, is the state's place. -/
  index : ∀ (i : Item) (id : Nat), c.index[i]? = some id ↔ c.items[id]? = some i
  start_le : ∀ i ∈ c.items, i.start ≤ i.stop
  stop_le : ∀ i ∈ c.items, i.stop ≤ t.length
  dot_le : ∀ i ∈ c.items, i.dot ≤ (t.steps i.rule).length
  start_eq_stop_iff : ∀ i ∈ c.items, i.start = i.stop ↔ i.dot = 0
  /-- The states that end at a position, in the order in which they were found. -/
  endings : ∀ pos, (c.endingAt pos).toList = c.idsWhere fun i => i.stop == pos
  /-- The states that end at a position with a head for their next step, in this order, too. -/
  waiting : ∀ pos name, (c.waitingFor pos name).toList
    = c.idsWhere fun i => i.stop == pos
        && (t.nextStep? i).any fun step => step.nonterminal && Text.lower step.symbol == name

/-- The tables of a well-formed chart agree with its list of items. What was stated by states for
the sake of the proofs is said here by items and numbers alone. -/
theorem WellFormed.tabulated (h : c.WellFormed t) : c.Tabulated t := by
  have hproper : ∀ i ∈ c.items, t.Proper i := by
    intro i hi
    obtain ⟨id, hid⟩ := List.getElem?_of_mem hi
    rw [getElem?_items, Option.map_eq_some_iff] at hid
    obtain ⟨s, hs, rfl⟩ := hid
    exact h.proper hs
  exact {
    nodup := h.nodup_items
    index := fun _ _ => h.index_eq_some_iff
    start_le := fun i hi => (hproper i hi).start_le
    stop_le := fun i hi => (hproper i hi).stop_le
    dot_le := fun i hi => (hproper i hi).dot_le
    start_eq_stop_iff := fun i hi => (hproper i hi).start_eq
    endings := h.endings
    waiting := h.waiting }

/-- A chart goes on from another: the items stay, or one more comes after them and is given the number of
those before it. -/
def Continues (c c' : Chart) : Prop :=
  c'.items = c.items
    ∨ ∃ i, c.index[i]? = none ∧ c'.items = c.items ++ [i] ∧ c'.index[i]? = some c.items.length

/-- Adding a state for a new item goes on from the chart before it. -/
theorem continues_insert {s : ChartState} (hnew : c.index[s.item]? = none) :
    c.Continues (c.insert t s) := by
  refine .inr ⟨s.item, hnew, items_insert t c s, ?_⟩
  rw [length_items]
  simp [insert]

theorem continues_of_states_eq (h : c'.states = c.states) : c.Continues c' :=
  .inl (by rw [items, items, h])

end Chart

/-- Every step of a run goes on from the chart before it. Only two kinds of step touch the states:
one adds a state at the end, the other gives a state a better score and keeps its item. -/
theorem Run.Placed.continues_step {t : Task} {r : Run} (h : Placed t r) :
    r.chart.Continues (r.step t).chart := by
  generalize hr' : r.step t = r'
  have hmove : Move t r r' := hr' ▸ move_step t r
  cases hmove with
  | settle _ _ => exact Chart.continues_of_states_eq rfl
  | add _ _ _ hnew => exact Chart.continues_insert hnew
  | improve _ _ hknown hold _ => exact .inl (Chart.items_improve hold (h.item_eq hknown hold))
  | pass _ _ _ _ => exact Chart.continues_of_states_eq rfl
  | predict _ _ _ _ _ => exact Chart.continues_of_states_eq rfl
  | complete _ _ _ _ => exact Chart.continues_of_states_eq rfl
  | advance _ _ => exact Chart.continues_of_states_eq rfl

namespace Analysis

/-! ## Candidates -/

/-- Whether a state covers the sentence. Its production must be there. -/
def checkedCovers (t : Task) (s : ChartState) : Option Bool :=
  if s.item.start == 0 && s.item.stop == t.length then do
    let p ← t.grammar.productions[s.item.rule]?
    return p.steps.length ≤ s.item.dot && p.status == .top
  else return false

/-- The states that cover the sentence. -/
def checkedCovering (t : Task) (c : Chart) : Option (List Nat) := do
  let candidates ← (List.range c.states.size).mapM fun id => do
    let s ← c.states[id]?
    let covers ← checkedCovers t s
    return if covers then some id else none
  return candidates.filterMap id

/-- Position of the first best candidate; `best` is the position of the best one before `i`. The states
of the candidates must be there. -/
def checkedBestFrom (c : Chart) (candidates : List Nat) (best i : Nat) : List Nat → Option Nat
  | [] => return best
  | id :: rest => do
    let s ← c.states[id]?
    let bestId ← candidates[best]?
    let bestState ← c.states[bestId]?
    checkedBestFrom c candidates (if s.score < bestState.score then i else best) (i + 1) rest

variable {t : Task} {c : Chart}

/-- The production of a proper item is there, so asking whether its state covers the sentence fails
on nothing. -/
theorem checkedCovers_eq {s : ChartState} (hs : t.Proper s.item) :
    checkedCovers t s = some (covers t s) := by
  obtain ⟨p, hp⟩ := hs.exists_production
  simp only [checkedCovers, covers, Task.isFinished, Task.steps, hp, Option.any_some,
    Option.bind_eq_bind, Option.bind_some]
  split
  · rename_i hspan
    rw [hspan, Bool.true_and]
    rfl
  · rename_i hspan
    rw [Bool.not_eq_true] at hspan
    rw [hspan, Bool.false_and, Bool.false_and]
    rfl

/-- Collecting the candidates looks up nothing out of range, as only numbers of states are looked
up. -/
theorem checkedCovering_eq (hc : c.WellFormed t) :
    checkedCovering t c = some (covering t c) := by
  have hall : (List.range c.states.size).mapM (fun id => do
      let s ← c.states[id]?
      let covers ← checkedCovers t s
      return if covers then some id else none)
      = some ((List.range c.states.size).map fun id =>
        if (c.states[id]?).any (covers t) then some id else none) := by
    apply mapM_eq_map
    intro id hid
    have hs := Array.getElem?_eq_getElem (List.mem_range.1 hid)
    simp only [hs, checkedCovers_eq (hc.proper hs), Option.bind_eq_bind, Option.bind_some,
      Option.any_some]
    rfl
  rw [checkedCovering, hall, covering, ← List.filterMap_eq_filter, Option.bind_eq_bind,
    Option.bind_some, List.filterMap_map]
  rfl

/-- The search finds what a search among the scores finds, and looks up nothing out of range. The
one keeps the place of the best candidate and looks up its score again, the other keeps the score. -/
theorem checkedBestFrom_eq {candidates : List Nat}
    (hstates : ∀ id ∈ candidates, ∃ s, c.states[id]? = some s) {best i bestId : Nat}
    {bestState : ChartState} {rest : List Nat} (hrest : candidates.drop i = rest)
    (hbest : candidates[best]? = some bestId) (hstate : c.states[bestId]? = some bestState) :
    checkedBestFrom c candidates best i rest
      = some (bestFrom best bestState.score i
        (rest.filterMap fun id => (c.states[id]?).map (·.score))) := by
  induction rest generalizing best i bestId bestState with
  | nil => rfl
  | cons id rest ih =>
    have hid : candidates[i]? = some id := by
      rw [← List.head?_drop, hrest, List.head?_cons]
    have htail : candidates.drop (i + 1) = rest := by
      rw [← List.tail_drop, hrest, List.tail_cons]
    obtain ⟨s, hs⟩ := hstates id (List.mem_of_getElem? hid)
    rw [List.filterMap_cons_some (by rw [hs, Option.map_some]), bestFrom]
    simp only [checkedBestFrom, hs, hbest, hstate, Option.bind_eq_bind, Option.bind_some]
    -- the position that is kept holds the score that is kept
    split
    · exact ih htail hid hs
    · exact ih htail hbest hstate

/-- The whole search, begun at the first candidate. -/
theorem checkedBest_eq {candidates : List Nat}
    (hstates : ∀ id ∈ candidates, ∃ s, c.states[id]? = some s) :
    checkedBestFrom c candidates 0 0 candidates
      = some (bestOf (candidates.filterMap fun id => (c.states[id]?).map (·.score))) := by
  cases candidates with
  | nil => rfl
  | cons id rest =>
    obtain ⟨s, hs⟩ := hstates id (List.mem_cons_self ..)
    have hall := checkedBestFrom_eq hstates List.drop_zero List.getElem?_cons_zero hs
    -- the first candidate is not better than itself
    rw [hall, List.filterMap_cons_some (by rw [hs, Option.map_some]), bestFrom, if_neg (lt_irrefl _),
      bestOf]

/-! ## Parsing -/

/-- While a chart is filled its tables agree with its states after every offer, states keep their
numbers, and no look-up is out of range, up to the choice of the best candidate. -/
theorem parse_tabulates {g : Grammar} (hg : g.Built) (status : Nat → Status) (words : List String) :
    let t := Task.ofWords (g.withStatuses status) words
    t.length = words.length
      ∧ Run.checkedBegin t = some (.begin t)
      ∧ (∀ r, Run.Reached t r → r.chart.Tabulated t
        ∧ (r.halted t = false →
          Run.checkedStep t r = some (r.step t) ∧ r.chart.Continues (r.step t).chart))
      ∧ checkedCovering t t.chart = some (covering t t.chart)
      ∧ checkedBestFrom t.chart (covering t t.chart) 0 0 (covering t t.chart)
        = some (bestOf ((covering t t.chart).filterMap fun id =>
          (t.chart.states[id]?).map (·.score))) := by
  intro t
  have hcoherent : t.grammar.Coherent := hg.coherent.withStatuses status
  refine ⟨length_ofWords _ words, Run.checkedBegin_eq hcoherent, fun r hr => ?_,
    checkedCovering_eq (Task.saturated_chart hcoherent).wellFormed, checkedBest_eq fun id hid => ?_⟩
  -- the invariant of every reached run
  · have hplaced := hr.placed hcoherent
    exact ⟨hplaced.wellFormed.tabulated, fun hgoing =>
      ⟨hplaced.checkedStep_eq hcoherent hgoing, hplaced.continues_step⟩⟩
  · obtain ⟨s, hs, _⟩ := mem_covering.1 hid
    exact ⟨s, hs⟩

/-- Where two heads lead to each other, the tables agree at the end as well, and the first step is
taken within their bounds. -/
theorem parse_tabulates_circle :
    let t := Task.ofWords (circle.withStatuses fun _ => .top) ["go"]
    t.chart.Tabulated t ∧ Run.checkedStep t (.begin t) = some ((Run.begin t).step t) := by
  intro t
  obtain ⟨_, _, hruns, _⟩ := parse_tabulates built_circle (fun _ => .top) ["go"]
  have hgoing : (Run.begin t).halted t = false := by
    rw [Bool.eq_false_iff, Ne, Run.halted_iff]
    rintro ⟨_, _, hlength⟩
    exact absurd hlength (by decide)
  exact ⟨(hruns _ Run.Reached.begin.finish).1, ((hruns _ .begin).2 hgoing).1⟩

end Analysis

end Utterance
