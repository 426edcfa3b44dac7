import Utterance.Chart.Score
import Utterance.Grammar

/-!
# Charts

A chart holds, for the words of a sentence, which part of which production can cover which words. A
state knows the state it was advanced from and, if the last step was a head, the finished state that
matched it. There is at most one state for each item; a better way to the same item replaces the
pointers and the score of its state.
-/

namespace Utterance

/-! ## Items and states -/

/-- Part of a production over part of a sentence: the words from `start` to just before `stop` match
the first `dot` steps. -/
structure Item where
  rule : Nat
  start : Nat
  stop : Nat
  dot : Nat
  deriving DecidableEq, Repr, Hashable

/-- An item with the best way to it that is known. -/
structure ChartState where
  item : Item
  /-- The state with one step less. -/
  prev : Option Nat := none
  /-- The finished state that matched the last step. -/
  child : Option Nat := none
  score : Score := .start
  deriving DecidableEq, Repr

/-! ## The task -/

/-- What is to be charted: the words of a sentence in lower case, by a grammar. -/
structure Task where
  grammar : Grammar
  words : Array String
  /-- Whether a production is tried only if its first word is the next word. -/
  lookahead : Bool := true

namespace Task

/-- The task of a sentence. -/
def ofWords (g : Grammar) (words : List String) (lookahead : Bool := true) : Task :=
  ⟨g, (words.map Text.lower).toArray, lookahead⟩

/-- Number of words. -/
def length (t : Task) : Nat := t.words.size

/-- The steps of a production. -/
def steps (t : Task) (rule : Nat) : List Step :=
  match t.grammar.productions[rule]? with
  | some p => p.steps
  | none => []

/-- The step that an item waits for. -/
def nextStep? (t : Task) (i : Item) : Option Step := (t.steps i.rule)[i.dot]?

/-- Whether all steps of an item are matched. -/
def isFinished (t : Task) (i : Item) : Bool := (t.steps i.rule).length ≤ i.dot

/-- Head of an item's production in lower case. -/
def head (t : Task) (i : Item) : String :=
  match t.grammar.productions[i.rule]? with
  | some p => Text.lower p.head
  | none => ""

/-- Whether an item lies within the grammar and the sentence. -/
def fits (t : Task) (i : Item) : Bool :=
  i.rule < t.grammar.productions.size && i.start ≤ t.length && i.stop ≤ t.length
    && i.dot ≤ (t.steps i.rule).length

/-- All items that lie within the grammar and the sentence. -/
def items (t : Task) : List Item :=
  (List.range t.grammar.productions.size).flatMap fun rule =>
    (List.range (t.length + 1)).flatMap fun start =>
      (List.range (t.length + 1)).flatMap fun stop =>
        (List.range ((t.steps rule).length + 1)).map fun dot => ⟨rule, start, stop, dot⟩

/-- The list of items is complete: what fits is in it. The number of items therefore bounds that of
states. -/
theorem mem_items_of_fits {t : Task} {i : Item} (h : t.fits i = true) : i ∈ t.items := by
  obtain ⟨rule, start, stop, dot⟩ := i
  simp only [fits, Bool.and_eq_true, decide_eq_true_eq] at h
  simp only [items, List.mem_flatMap, List.mem_range, List.mem_map, Item.mk.injEq]
  exact ⟨rule, h.1.1.1, start, by omega, stop, by omega, dot, by omega, rfl, rfl, rfl, rfl⟩

end Task

/-! ## The chart -/

/-- The states found so far, in the order in which they were found, with three indexes. -/
structure Chart where
  states : Array ChartState := #[]
  /-- The state of each item. -/
  index : Std.HashMap Item Nat := ∅
  /-- The states that end at a position. -/
  endings : Std.HashMap Nat (Array Nat) := ∅
  /-- The states that end at a position and wait for a head, given in lower case. -/
  waiting : Std.HashMap (Nat × String) (Array Nat) := ∅
  /-- The heads that have been predicted at a position. -/
  predicted : Std.HashSet (Nat × String) := ∅

namespace Chart

/-- The states that end at a position. -/
def endingAt (c : Chart) (pos : Nat) : Array Nat := c.endings.getD pos #[]

/-- The states that end at a position and wait for a head. -/
def waitingFor (c : Chart) (pos : Nat) (head : String) : Array Nat := c.waiting.getD (pos, head) #[]

/-- The chart with a state for a new item. -/
def insert (t : Task) (c : Chart) (s : ChartState) : Chart :=
  let id := c.states.size
  { c with
    states := c.states.push s
    index := c.index.insert s.item id
    endings := c.endings.insert s.item.stop ((c.endingAt s.item.stop).push id)
    waiting :=
      match t.nextStep? s.item with
      | some step =>
        if step.nonterminal then
          let head := Text.lower step.symbol
          c.waiting.insert (s.item.stop, head) ((c.waitingFor s.item.stop head).push id)
        else c.waiting
      | none => c.waiting }

/-- The chart with other pointers and another score for a state. -/
def improve (c : Chart) (id : Nat) (s : ChartState) : Chart :=
  { c with states := c.states.setIfInBounds id s }

/-- Offers a state to the chart. A new item gets a state of its own; for a known item the state is
improved if the offer has a better score, and its number is returned. -/
def offer (t : Task) (c : Chart) (s : ChartState) : Chart × Option Nat :=
  if !t.fits s.item then (c, none)
  else
    match c.index[s.item]? with
    | none => (c.insert t s, none)
    | some id =>
      -- the item keeps its number and its place in all indexes
      match c.states[id]? with
      | none => (c, none)
      | some old => if s.score < old.score then (c.improve id s, some id) else (c, none)

/-- An offer leaves the chart as it is, if its item does not fit or has a state that is as good; or it adds
a state, or improves one. -/
theorem offer_cases (t : Task) (c : Chart) (s : ChartState) :
    (c.offer t s = (c, none)
        ∧ (t.fits s.item = true → ∃ id, c.index[s.item]? = some id
          ∧ ∀ old, c.states[id]? = some old → ¬s.score < old.score))
      ∨ (t.fits s.item = true ∧ c.index[s.item]? = none ∧ c.offer t s = (c.insert t s, none))
      ∨ ∃ old id, c.index[s.item]? = some id ∧ c.states[id]? = some old ∧ s.score < old.score
        ∧ c.offer t s = (c.improve id s, some id) := by
  by_cases hfits : t.fits s.item = true
  · cases hindex : c.index[s.item]? with
    | none => exact .inr (.inl ⟨hfits, rfl, by simp [offer, hfits, hindex]⟩)
    | some id =>
      cases hold : c.states[id]? with
      -- a number that names no state, which cannot be told from here to be impossible
      | none =>
        exact .inl ⟨by simp [offer, hfits, hindex, hold],
          fun _ => ⟨id, rfl, fun old h => by simp [hold] at h⟩⟩
      | some old =>
        by_cases hbetter : s.score < old.score
        · exact .inr (.inr ⟨old, id, rfl, hold, hbetter, by simp [offer, hfits, hindex, hold, hbetter]⟩)
        · refine .inl ⟨by simp [offer, hfits, hindex, hold, hbetter], fun _ => ⟨id, rfl, ?_⟩⟩
          intro old' h
          rw [hold, Option.some.injEq] at h
          exact h ▸ hbetter
  · exact .inl ⟨by simp [offer, hfits], fun h => absurd h hfits⟩

/-! ## Ways to new states -/

/-- A way to a state that is still to be offered. -/
inductive Way where
  /-- A production may start at a position. -/
  | start (rule pos : Nat)
  /-- A state may be advanced over the next word. -/
  | scan (state : Nat)
  /-- A state that waits for a head may be advanced over a finished state. -/
  | join (state done : Nat)
  deriving DecidableEq, Repr

/-- Score of a wildcard step: one word, and one run unless the step before is a wildcard, too. -/
def wildScore (steps : List Step) (dot : Nat) : Score :=
  ⟨1, if 0 < dot && (steps[dot - 1]?).any Step.isWild then 0 else 1, 0⟩

/-- The state of an advanced item. -/
def advanced (id : Nat) (s : ChartState) (stop : Nat) (child : Option Nat) (cost : Score) :
    ChartState :=
  ⟨{ s.item with stop, dot := s.item.dot + 1 }, some id, child, s.score + cost⟩

/-- The state that a way leads to. -/
def state? (t : Task) (c : Chart) : Way → Option ChartState
  | .start rule pos => some { item := ⟨rule, pos, pos, 0⟩ }
  | .scan id => do
    let s ← c.states[id]?
    let step ← t.nextStep? s.item
    let word ← t.words[s.item.stop]?
    if step.nonterminal then none
    else if step.isWild then
      some (advanced id s (s.item.stop + 1) none (wildScore (t.steps s.item.rule) s.item.dot))
    else if Text.lower step.symbol == word then
      some (advanced id s (s.item.stop + 1) none ⟨0, 0, 0⟩)
    else none
  | .join id done => do
    let s ← c.states[id]?
    let d ← c.states[done]?
    some (advanced id s d.item.stop (some done) d.score)

/-- The ways that a finished state opens up. -/
def completions (t : Task) (c : Chart) (id : Nat) : List Way :=
  match c.states[id]? with
  | some s =>
    if t.isFinished s.item then
      (c.waitingFor s.item.start (t.head s.item)).toList.map (.join · id)
    else []
  | none => []

/-- Whether a production may start at a position: it must be usable, and its first step must be a
head, a wildcard or the next word. -/
def mayStart (t : Task) (pos : Nat) (p : Production) : Bool :=
  p.status.isUsable &&
    match p.steps.head? with
    | some first =>
      !t.lookahead || first.nonterminal || first.isWild
        || Text.lower first.symbol == (t.words[pos]?).getD ""
    | none => false

/-- Predicts a head at a position. The ways are empty if it has been predicted there before. -/
def predict (t : Task) (c : Chart) (head : String) (pos : Nat) : Chart × List Way :=
  let name := Text.lower head
  if c.predicted.contains (pos, name) then (c, [])
  else
    ({ c with predicted := c.predicted.insert (pos, name) },
      ((t.grammar.rulesFor head).filter (mayStart t pos)).map fun p => .start p.id pos)

/-- Predicts several heads at a position. -/
def predictAll (t : Task) (c : Chart) (pos : Nat) : List String → Chart × List Way
  | [] => (c, [])
  | head :: rest =>
    let (c, ways) := c.predict t head pos
    let (c, more) := predictAll t c pos rest
    (c, ways ++ more)

end Chart

end Utterance
