import Utterance.Chart
import Utterance.Counting

/-!
# Filling the chart

The chart is filled position by position. At each position every state that ends there is taken up
once, in the order in which the states were found: a finished state advances the states that wait for
it, an unfinished one predicts the head it waits for. Then the next word is scanned. When a finished
state is improved, the states that wait for it are advanced anew at once.

All pending work is one list of ways, so that filling is the repetition of a single small step. It
comes to an end because every step goes on to the next position, or finds one of finitely many items,
or improves a state, or takes up a state, or works off a way.
-/

namespace Utterance

/-- A chart being filled. -/
structure Run where
  chart : Chart
  /-- The ways that are still to be offered. -/
  todo : List Chart.Way
  /-- The position whose states are being taken up. -/
  pos : Nat
  /-- How many of the states that end at `pos` have been taken up. -/
  taken : Nat

namespace Run

/-! ## Steps -/

/-- The first ways of a sentence: its start is predicted for every head that may start one. -/
def begin (t : Task) : Run :=
  let (c, ways) := Chart.predictAll t {} 0 t.grammar.topHeads
  ⟨c, ways, 0, 0⟩

/-- Whether nothing is left to do. -/
def halted (t : Task) (r : Run) : Bool :=
  r.todo.isEmpty && (r.chart.endingAt r.pos).size ≤ r.taken && t.length ≤ r.pos

/-- Offers the state that a way leads to. -/
def offerWay (t : Task) (c : Chart) (way : Chart.Way) : Chart × Option Nat :=
  match c.state? t way with
  | some s => c.offer t s
  | none => (c, none)

/-- Takes up a state. -/
def takeUp (t : Task) (c : Chart) (pos id : Nat) : Chart × List Chart.Way :=
  match c.states[id]? with
  | some s =>
    match t.nextStep? s.item with
    | some step => if step.nonterminal then c.predict t step.symbol pos else (c, [])
    | none => (c, c.completions t id)
  | none => (c, [])

/-- One step: offers the next way, or takes up the next state, or goes on to the next position. -/
def step (t : Task) (r : Run) : Run :=
  let ⟨chart, todo, pos, taken⟩ := r
  match todo with
  | way :: rest =>
    let (chart, improved) := offerWay t chart way
    -- what follows from an improved state comes before all other work
    let more := match improved with
      | some id => chart.completions t id
      | none => []
    ⟨chart, more ++ rest, pos, taken⟩
  | [] =>
    let ending := chart.endingAt pos
    match ending[taken]? with
    | some id =>
      let (chart, ways) := takeUp t chart pos id
      ⟨chart, ways, pos, taken + 1⟩
    -- every state that ends here has been taken up, so the word after it is scanned
    | none => ⟨chart, ending.toList.map .scan, pos + 1, 0⟩

/-! ## Every step comes closer to the end -/

/-- Number of items that have no state yet. -/
def free (t : Task) (c : Chart) : Nat := t.items.countP fun i => !c.index.contains i

/-- The scores of all states. -/
def standing (c : Chart) : Standing := ⟨c.states.toList.map (·.score)⟩

/-- What every step lowers: the positions ahead, then the items without a state, then the scores, then
the states to take up, then the pending ways. -/
def distance (t : Task) (r : Run) : Nat × Nat × Standing × Nat × Nat :=
  (t.length + 1 - r.pos, free t r.chart, standing r.chart,
    (r.chart.endingAt r.pos).size - r.taken, r.todo.length)

/-- A new item is not free any more. -/
theorem countP_insert_lt {items : List Item} {index : Std.HashMap Item Nat} {i : Item} {id : Nat}
    (hmem : i ∈ items) (hnew : index.contains i = false) :
    items.countP (fun j => !(index.insert i id).contains j)
      < items.countP (fun j => !index.contains j) := by
  apply countP_lt_countP _ hmem
  · simp [hnew]
  · simp
  · intro j _ hj
    simp only [Std.HashMap.contains_insert, Bool.not_or, Bool.and_eq_true] at hj
    exact hj.2

/-- What an offer does to the chart: nothing, or it adds an item, or it improves a state and leaves
all else as it is. -/
inductive Effect (t : Task) (c c' : Chart) : Prop where
  | none (same : c' = c)
  | added (less : free t c' < free t c)
  | improved (index : c'.index = c.index) (endings : c'.endings = c.endings)
      (below : Standing.Below (standing c').scores (standing c).scores)

/-- An offer has one of these effects, and it names an improved state only if it has improved one. -/
theorem effect_offer (t : Task) (c : Chart) (s : ChartState) :
    Effect t c (c.offer t s).1 ∧ ((c.offer t s).1 = c → (c.offer t s).2 = none) := by
  rcases c.offer_cases t s with
    ⟨hoffer, _⟩ | ⟨hfits, hindex, hoffer⟩ | ⟨old, id, _, hold, hbetter, hoffer⟩
  · rw [hoffer]
    exact ⟨.none rfl, fun _ => rfl⟩
  · have hnew : c.index.contains s.item = false := by
      rw [Std.HashMap.contains_eq_isSome_getElem?, hindex]
      rfl
    rw [hoffer]
    exact ⟨.added (countP_insert_lt (Task.mem_items_of_fits hfits) hnew), fun _ => rfl⟩
  -- a better score in the place of another one is below it, so this is no longer the same chart
  · have hmap : (c.states.toList.map (·.score))[id]? = some old.score := by
      simp [List.getElem?_map, hold]
    have hbelow : Standing.Below (standing (c.improve id s)).scores (standing c).scores := by
      simpa [standing, Chart.improve, List.map_set] using Standing.below_set hbetter hmap
    rw [hoffer]
    refine ⟨.improved rfl rfl hbelow, fun heq => ?_⟩
    simp only at heq
    rw [heq] at hbelow
    exact absurd hbelow (Standing.not_below_self _)

/-- Offering where a way leads has one of these effects as well. -/
theorem effect_offerWay (t : Task) (c : Chart) (way : Chart.Way) :
    Effect t c (offerWay t c way).1
      ∧ ((offerWay t c way).1 = c → (offerWay t c way).2 = none) := by
  unfold offerWay
  split
  · exact effect_offer t c _
  · exact ⟨.none rfl, fun _ => rfl⟩

/-- Taking up a state adds none and improves none; it may mark a head as predicted. So the chart is
as large afterwards, and as good. -/
theorem takeUp_keeps (t : Task) (c : Chart) (pos id : Nat) :
    (takeUp t c pos id).1.index = c.index ∧ (takeUp t c pos id).1.states = c.states
      ∧ (takeUp t c pos id).1.endings = c.endings := by
  unfold takeUp
  split
  · split
    · split
      · simp only [Chart.predict]
        split <;> exact ⟨rfl, rfl, rfl⟩
      · exact ⟨rfl, rfl, rfl⟩
    · exact ⟨rfl, rfl, rfl⟩
  · exact ⟨rfl, rfl, rfl⟩

/-- Every step of a run that has not come to its end lowers the distance. -/
theorem distance_step (t : Task) (r : Run) (h : r.halted t = false) :
    WellFoundedRelation.rel ((r.step t).distance t) (r.distance t) := by
  obtain ⟨chart, todo, pos, taken⟩ := r
  cases todo with
  | cons way rest =>
    obtain ⟨heffect, hnone⟩ := effect_offerWay t chart way
    simp only [step]
    apply Prod.Lex.right
    cases heffect with
    | none same =>
      -- the offer was worked off and changed nothing
      simp only [hnone same, same, List.nil_append]
      exact .right _ (.right _ (.right _ (Nat.lt_succ_self _)))
    | added less => exact .left _ _ less
    -- no item is new, but a score went down
    | improved hindex hendings hbelow =>
      have hfree : free t (offerWay t chart way).1 = free t chart := by simp [free, hindex]
      rw [hfree]
      exact .right _ (.left _ _ hbelow)
  | nil =>
    simp only [step]
    split
    -- a state is taken up: only the number of those left to take up changes
    · rename_i id hid
      obtain ⟨hindex, hstates, hendings⟩ := takeUp_keeps t chart pos id
      have htaken : taken < (chart.endingAt pos).size := by
        rw [Array.getElem?_eq_some_iff] at hid
        exact hid.1
      have hfree : free t (takeUp t chart pos id).1 = free t chart := by simp [free, hindex]
      have hstanding : standing (takeUp t chart pos id).1 = standing chart := by
        simp [standing, hstates]
      have hending : (takeUp t chart pos id).1.endingAt pos = chart.endingAt pos := by
        simp [Chart.endingAt, hendings]
      simp only [distance, hfree, hstanding, hending]
      refine .right _ (.right _ (.right _ (.left _ _ ?_)))
      show (chart.endingAt pos).size - (taken + 1) < (chart.endingAt pos).size - taken
      omega
    -- the next position
    · rename_i hid
      have htaken : (chart.endingAt pos).size ≤ taken := by simpa using hid
      have hpos : pos < t.length := by
        simp [halted, htaken] at h
        exact h
      refine .left _ _ ?_
      show t.length + 1 - (pos + 1) < t.length + 1 - pos
      omega

/-- Runs to the end. -/
def finish (t : Task) (r : Run) : Run :=
  if _h : r.halted t = true then r else finish t (r.step t)
termination_by r.distance t
decreasing_by exact distance_step t r (by simpa using _h)

end Run

/-- The chart of a task. -/
def Task.chart (t : Task) : Chart := ((Run.begin t).finish t).chart

end Utterance
