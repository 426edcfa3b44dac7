import Utterance.Proofs.Chart.Move
import Utterance.Proofs.Derivation
import Utterance.Proofs.Grammar.Built

/-!
# The shape of a chart

In every chart that a run meets, the three indexes list exactly the states they should, in the order
in which the states were found, and every item lies within the grammar and the sentence. Nothing ends
behind the position of the run, and every pending way leads exactly there.
-/

namespace Utterance

/-! ## Proper items -/

/-- An item lies within the grammar and the sentence, and has matched a step just if it covers a
word. -/
structure Task.Proper (t : Task) (i : Item) : Prop where
  rule_lt : i.rule < t.grammar.productions.size
  start_le : i.start ≤ i.stop
  stop_le : i.stop ≤ t.length
  dot_le : i.dot ≤ (t.steps i.rule).length
  start_eq : i.start = i.stop ↔ i.dot = 0

namespace Task.Proper

variable {t : Task} {i : Item}

theorem fits (h : t.Proper i) : t.fits i = true := by
  have hstart : i.start ≤ t.length := Nat.le_trans h.start_le h.stop_le
  simp [Task.fits, h.rule_lt, hstart, h.stop_le, h.dot_le]

theorem exists_production (h : t.Proper i) : ∃ p, t.grammar.productions[i.rule]? = some p :=
  ⟨_, Array.getElem?_eq_getElem h.rule_lt⟩

/-- No production is empty, so a finished item covers a word. This is what orders the parts of a
state before the state itself, and why no state is a part of itself. -/
theorem start_lt (hg : t.grammar.Coherent) (h : t.Proper i) (hf : t.isFinished i = true) :
    i.start < i.stop := by
  obtain ⟨p, hp⟩ := h.exists_production
  have hsteps : t.steps i.rule = p.steps := by simp [Task.steps, hp]
  have hpos : 0 < p.steps.length := List.length_pos_of_ne_nil (hg.steps_ne_nil hp)
  have hlen : p.steps.length ≤ i.dot := by simpa [Task.isFinished, hsteps] using hf
  have hne : i.start ≠ i.stop := by
    rw [Ne, h.start_eq]
    omega
  exact Nat.lt_of_le_of_ne h.start_le hne

end Task.Proper

theorem Task.isFinished_iff {t : Task} {i : Item} : t.isFinished i = true ↔ t.nextStep? i = none := by
  simp [isFinished, nextStep?]

/-- An item that waits for a step has a further item. -/
theorem Task.dot_lt {t : Task} {i : Item} {step : Step} (h : t.nextStep? i = some step) :
    i.dot < (t.steps i.rule).length :=
  (List.getElem?_eq_some_iff.1 h).1

namespace Chart

/-! ## Indexes -/

/-- The numbers of the states whose items satisfy `p`, in the order in which they were found. -/
def idsWhere (c : Chart) (p : Item → Bool) : List Nat :=
  (List.range c.states.size).filter fun id => (c.states[id]?).any fun s => p s.item

/-- Membership in such a list, spelled out by the state that has the number. -/
theorem mem_idsWhere {c : Chart} {p : Item → Bool} {id : Nat} :
    id ∈ c.idsWhere p ↔ ∃ s, c.states[id]? = some s ∧ p s.item = true := by
  simp only [idsWhere, List.mem_filter, List.mem_range]
  constructor
  · rintro ⟨_, hany⟩
    cases hs : c.states[id]? with
    | none => simp [hs] at hany
    | some s => exact ⟨s, rfl, by simpa [hs] using hany⟩
  · rintro ⟨s, hs, hp⟩
    exact ⟨(Array.getElem?_eq_some_iff.1 hs).1, by simp [hs, hp]⟩

/-- A new state has the highest number, so it comes last in every list that it belongs to. -/
theorem idsWhere_insert (t : Task) (c : Chart) (s : ChartState) (p : Item → Bool) :
    (c.insert t s).idsWhere p = c.idsWhere p ++ if p s.item then [c.states.size] else [] := by
  have hsize : (c.insert t s).states.size = c.states.size + 1 := by simp [insert]
  have hold : (List.range c.states.size).filter
      (fun id => ((c.insert t s).states[id]?).any fun q => p q.item) = c.idsWhere p := by
    apply List.filter_congr
    intro id hid
    rw [getElem?_insert, if_neg (Nat.ne_of_lt (List.mem_range.1 hid))]
  -- the new number comes last
  rw [idsWhere, hsize, List.range_succ, List.filter_append, hold, List.filter_cons, List.filter_nil,
    getElem?_insert, if_pos rfl, Option.any_some]

/-- An improved state keeps its item, so all lists stay as they are. -/
theorem idsWhere_improve {c : Chart} {id : Nat} {old s : ChartState} (hold : c.states[id]? = some old)
    (hitem : s.item = old.item) (p : Item → Bool) : (c.improve id s).idsWhere p = c.idsWhere p := by
  have hsize : (c.improve id s).states.size = c.states.size := by simp [improve]
  rw [idsWhere, idsWhere, hsize]
  apply List.filter_congr
  intro j _
  rw [getElem?_improve hold]
  by_cases hj : j = id
  · rw [if_pos hj, hj, hold, Option.any_some, Option.any_some, hitem]
  · rw [if_neg hj]

/-- The indexes of a chart list what they should, and all items are proper. -/
structure WellFormed (t : Task) (c : Chart) : Prop where
  index : ∀ {i : Item} {id : Nat},
    c.index[i]? = some id ↔ ∃ s, c.states[id]? = some s ∧ s.item = i
  endings : ∀ pos : Nat, (c.endingAt pos).toList = c.idsWhere fun i => i.stop == pos
  waiting : ∀ (pos : Nat) (name : String), (c.waitingFor pos name).toList
    = c.idsWhere fun i => i.stop == pos && t.waitsFor i name
  proper : ∀ {id : Nat} {s : ChartState}, c.states[id]? = some s → t.Proper s.item

/-- The list of states by their ends gets longer at one position, where the new state ends. -/
theorem toList_endingAt_insert (t : Task) (c : Chart) (s : ChartState) (pos : Nat) :
    ((c.insert t s).endingAt pos).toList
      = (c.endingAt pos).toList ++ if s.item.stop == pos then [c.states.size] else [] := by
  simp only [insert, endingAt, Std.HashMap.getD_insert]
  by_cases hpos : s.item.stop = pos
  · subst hpos
    simp
  · simp [hpos]

/-- The list of waiting states gets longer under one key, the position and the head that the new
state waits for; a state that waits for a word is listed nowhere. -/
theorem toList_waitingFor_insert (t : Task) (c : Chart) (s : ChartState) (pos : Nat)
    (name : String) :
    ((c.insert t s).waitingFor pos name).toList
      = (c.waitingFor pos name).toList
        ++ if s.item.stop == pos && t.waitsFor s.item name then [c.states.size] else [] := by
  cases hstep : t.nextStep? s.item with
  | none => simp [insert, waitingFor, Task.waitsFor, hstep]
  | some step =>
    by_cases hn : step.nonterminal = true
    · simp only [insert, waitingFor, Task.waitsFor, hstep, hn, if_true, Std.HashMap.getD_insert,
        Option.any_some, Bool.true_and]
      -- only the list under the key of the new state gets longer
      by_cases hkey : s.item.stop = pos ∧ Text.lower step.symbol = name
      · obtain ⟨rfl, rfl⟩ := hkey
        simp
      · have hne : ((s.item.stop, Text.lower step.symbol) == (pos, name)) = false := by
          simpa using hkey
        have hne' : (s.item.stop == pos && Text.lower step.symbol == name) = false := by
          simpa using hkey
        simp [hne, hne']
    · simp [insert, waitingFor, Task.waitsFor, hstep, hn]

/-- A chart without states is well-formed, whatever has been predicted. -/
theorem wellFormed_empty (t : Task) (predicted : Std.HashSet (Nat × String)) :
    WellFormed t { predicted } where
  index := by simp
  endings pos := by simp [endingAt, idsWhere]
  waiting pos name := by simp [waitingFor, idsWhere]
  proper h := by simp at h

namespace WellFormed

variable {t : Task} {c : Chart}

/-- An item has one state at most. Two states for the same item would both be what the index names. -/
theorem eq_of_item (h : c.WellFormed t) {id id' : Nat} {s s' : ChartState}
    (hs : c.states[id]? = some s) (hs' : c.states[id']? = some s') (hitem : s.item = s'.item) :
    id = id' := by
  have hid : c.index[s'.item]? = some id := h.index.2 ⟨s, hs, hitem⟩
  have hid' : c.index[s'.item]? = some id' := h.index.2 ⟨s', hs', rfl⟩
  rw [hid, Option.some.injEq] at hid'
  exact hid'

/-- Adding a state keeps the chart well-formed, provided that its item is new and proper. Both are
checked by `Chart.offer` before it adds one. -/
theorem insert (h : c.WellFormed t) {s : ChartState} (hnew : c.index[s.item]? = none)
    (hproper : t.Proper s.item) : (c.insert t s).WellFormed t where
  index {i id} := by
    have hindex : (c.insert t s).index[i]?
        = if s.item == i then some c.states.size else c.index[i]? := by
      simp [Chart.insert, Std.HashMap.getElem?_insert]
    rw [hindex, getElem?_insert]
    by_cases hi : s.item = i
    · subst hi
      -- no earlier state has the item
      have hnone : ¬ ∃ q, c.states[id]? = some q ∧ q.item = s.item := by
        rw [← h.index, hnew]
        simp
      simp only [beq_self_eq_true, if_true, Option.some.injEq]
      constructor
      · rintro rfl
        exact ⟨s, by simp, rfl⟩
      · rintro ⟨q, hq, hitem⟩
        split at hq
        · rename_i hid
          exact hid.symm
        · exact absurd ⟨q, hq, hitem⟩ hnone
    -- other items keep the states they have
    · have hne : (s.item == i) = false := by simpa using hi
      rw [hne]
      simp only [Bool.false_eq_true, if_false]
      rw [h.index]
      by_cases hid : id = c.states.size
      · subst hid
        simp [hi]
      · rw [if_neg hid]
  endings pos := by rw [toList_endingAt_insert, h.endings, idsWhere_insert]
  waiting pos name := by rw [toList_waitingFor_insert, h.waiting, idsWhere_insert]
  proper {id q} hq := by
    rw [getElem?_insert] at hq
    split at hq
    · cases hq
      exact hproper
    · exact h.proper hq

/-- Improving a state keeps the chart well-formed, as the item and the number stay the same. All
indexes depend on items and numbers only. -/
theorem improve (h : c.WellFormed t) {id : Nat} {old s : ChartState}
    (hold : c.states[id]? = some old) (hitem : s.item = old.item) :
    (c.improve id s).WellFormed t where
  index {i j} := by
    show c.index[i]? = some j ↔ _
    rw [h.index, getElem?_improve hold]
    -- the item stays, so the index may lead to the state as before
    by_cases hj : j = id
    · subst hj
      simp [hold, hitem]
    · rw [if_neg hj]
  endings pos := by
    rw [idsWhere_improve hold hitem, ← h.endings]
    rfl
  waiting pos name := by
    rw [idsWhere_improve hold hitem, ← h.waiting]
    rfl
  proper {j q} hq := by
    rw [getElem?_improve hold] at hq
    split at hq
    · cases hq
      rw [hitem]
      exact h.proper hold
    · exact h.proper hq

/-- The states that end at a position are those that are listed for it. -/
theorem mem_endingAt (h : c.WellFormed t) {pos id : Nat} :
    id ∈ (c.endingAt pos).toList ↔ ∃ s, c.states[id]? = some s ∧ s.item.stop = pos := by
  rw [h.endings, mem_idsWhere]
  simp

end WellFormed

/-! ## Ways -/

/-- What a way starts from is there and fits together. -/
def Valid (t : Task) (c : Chart) : Way → Prop
  | .start rule _ => ∃ p, t.grammar.productions[rule]? = some p ∧ p.status.isUsable = true
  | .scan _ => True
  | .join id done =>
    ∃ s d, c.states[id]? = some s ∧ c.states[done]? = some d ∧ t.isFinished d.item = true
      ∧ s.item.stop = d.item.start ∧ t.waitsFor s.item (t.head d.item) = true

/-- The position at which what a way leads to ends. -/
def LeadsTo (c : Chart) (pos : Nat) : Way → Prop
  | .start _ start => start = pos
  | .scan id => ∃ s, c.states[id]? = some s ∧ s.item.stop + 1 = pos
  | .join _ done => ∃ d, c.states[done]? = some d ∧ d.item.stop = pos

/-- A way depends on the states that it starts from. -/
def Way.Reads : Way → Nat → Prop
  | .start _ _, _ => False
  | .scan id, j => id = j
  | .join id done, j => id = j ∨ done = j

theorem state?_start {t : Task} {c : Chart} {rule pos : Nat} {q : ChartState} :
    c.state? t (.start rule pos) = some q ↔ q = { item := ⟨rule, pos, pos, 0⟩ } := by
  simp [state?, eq_comm]

/-- A scan leads to a state just if the next step is a word or a wildcard that accepts the next word
of the sentence. The cost is that of the step: nothing for a word, the wildcard's score for a
wildcard. -/
theorem state?_scan {t : Task} {c : Chart} {id : Nat} {q : ChartState} :
    c.state? t (.scan id) = some q
      ↔ ∃ s step word, c.states[id]? = some s ∧ t.nextStep? s.item = some step
        ∧ t.words[s.item.stop]? = some word ∧ step.nonterminal = false
        ∧ (step.isWild = true ∨ Text.lower step.symbol = word)
        ∧ q = advanced id s (s.item.stop + 1) none
          (stepCost (t.steps s.item.rule) s.item.dot) := by
  -- the cost is stated by the step in the definition, and by its place here
  have hcost : ∀ {s : ChartState} {step : Step}, t.nextStep? s.item = some step →
      stepCost (t.steps s.item.rule) s.item.dot
        = if step.isWild then wildScore (t.steps s.item.rule) s.item.dot else 0 := by
    intro s step hstep
    have hget : (t.steps s.item.rule)[s.item.dot]? = some step := hstep
    rw [stepCost, hget, Option.any_some]
  -- forwards, the definition is taken apart condition by condition; backwards it computes
  constructor
  · intro hq
    simp only [state?, Option.bind_eq_bind, Option.bind_eq_some_iff] at hq
    obtain ⟨s, hs, step, hstep, word, hword, hq⟩ := hq
    refine ⟨s, step, word, hs, hstep, hword, ?_⟩
    rw [hcost hstep]
    split at hq
    · cases hq
    · rename_i hn
      refine ⟨by simpa using hn, ?_⟩
      split at hq
      · rename_i hw
        rw [if_pos hw]
        exact ⟨.inl hw, (Option.some.inj hq).symm⟩
      · rename_i hw
        rw [if_neg hw]
        split at hq
        · rename_i hsame
          exact ⟨.inr (by simpa using hsame), (Option.some.inj hq).symm⟩
        · cases hq
  · rintro ⟨s, step, word, hs, hstep, hword, hn, haccepts, rfl⟩
    simp only [state?, hs, hstep, hword, Option.bind_eq_bind, Option.bind_some, hn, hcost hstep]
    by_cases hw : step.isWild = true
    · simp [hw]
    · have hsame : Text.lower step.symbol = word := haccepts.resolve_left hw
      simp only [hw, hsame, beq_self_eq_true, Bool.false_eq_true, if_false, if_true]
      rfl

/-- A join always leads to a state if both its states are there. That they fit together is not
checked here; it is what makes a join valid. -/
theorem state?_join {t : Task} {c : Chart} {id done : Nat} {q : ChartState} :
    c.state? t (.join id done) = some q
      ↔ ∃ s d, c.states[id]? = some s ∧ c.states[done]? = some d
        ∧ q = advanced id s d.item.stop (some done) d.score := by
  cases hs : c.states[id]? with
  | none => simp [state?, hs]
  | some s =>
    cases hd : c.states[done]? with
    | none => simp [state?, hs, hd]
    | some d => simp [state?, hs, hd, eq_comm]

/-- Where a way leads depends on nothing but the states that it reads. The lemmas on later charts
below are instances of this. -/
theorem state?_congr {t : Task} {c c' : Chart} {way : Way}
    (h : ∀ id, way.Reads id → c'.states[id]? = c.states[id]?) :
    c'.state? t way = c.state? t way := by
  cases way with
  | start rule pos => rfl
  | scan id => simp only [state?, h id rfl]
  | join id done => simp only [state?, h id (.inl rfl), h done (.inr rfl)]

/-- A way that leads somewhere reads states that are there. -/
theorem exists_of_reads {t : Task} {c : Chart} {way : Way} {q : ChartState} {id : Nat}
    (hq : c.state? t way = some q) (hreads : way.Reads id) : ∃ s, c.states[id]? = some s := by
  cases way with
  | start rule pos => exact hreads.elim
  | scan j =>
    obtain ⟨s, _, _, hs, _⟩ := state?_scan.1 hq
    exact ⟨s, hreads ▸ hs⟩
  | join j done =>
    obtain ⟨s, d, hs, hd, _⟩ := state?_join.1 hq
    rcases hreads with hj | hj
    · exact ⟨s, hj ▸ hs⟩
    · exact ⟨d, hj ▸ hd⟩

/-- Ways that lead somewhere lead there still when a state is added. -/
theorem state?_insert_of_some {t : Task} {c : Chart} {way : Way} {q : ChartState}
    (hq : c.state? t way = some q) (s : ChartState) : (c.insert t s).state? t way = some q := by
  rw [← hq]
  apply state?_congr
  intro id hreads
  obtain ⟨p, hp⟩ := exists_of_reads hq hreads
  rw [hp, getElem?_insert_of_some t s hp]

/-- Ways that do not start from an improved state lead where they led. -/
theorem state?_improve_of_not_reads {t : Task} {c : Chart} {way : Way} {id : Nat} {old : ChartState}
    (hold : c.states[id]? = some old) (s : ChartState) (hreads : ¬ way.Reads id) :
    (c.improve id s).state? t way = c.state? t way := by
  apply state?_congr
  intro j hj
  apply getElem?_improve_of_ne hold
  rintro rfl
  exact hreads hj

/-- What `LeadsTo` says without looking the state up is where the state ends that the way leads to. -/
theorem leadsTo_iff {t : Task} {c : Chart} {way : Way} {q : ChartState} {pos : Nat}
    (hq : c.state? t way = some q) : c.LeadsTo pos way ↔ q.item.stop = pos := by
  cases way with
  | start rule start =>
    rw [state?_start] at hq
    subst hq
    rfl
  | scan id =>
    obtain ⟨s, _, _, hs, _, _, _, _, rfl⟩ := state?_scan.1 hq
    simp [LeadsTo, hs, advanced]
  | join id done =>
    obtain ⟨s, d, _, hd, rfl⟩ := state?_join.1 hq
    simp [LeadsTo, hd, advanced]

/-- A way stays valid: validity is about items, and a later chart has the same items under the same
numbers. -/
theorem Valid.mono {t : Task} {c c' : Chart} (h : c.Retains c') {way : Way} (hv : c.Valid t way) :
    c'.Valid t way := by
  cases way with
  | start rule pos => exact hv
  | scan id => trivial
  | join id done =>
    obtain ⟨s, d, hs, hd, hfinished, hstop, hwaits⟩ := hv
    obtain ⟨s', hs', hitem⟩ := h _ _ hs
    obtain ⟨d', hd', hitem'⟩ := h _ _ hd
    exact ⟨s', d', hs', hd', by rw [hitem']; exact hfinished, by rw [hitem, hitem']; exact hstop,
      by rw [hitem, hitem']; exact hwaits⟩

/-- A way still ends at the same position in a later chart. -/
theorem LeadsTo.mono {c c' : Chart} (h : c.Retains c') {pos : Nat} {way : Way}
    (hl : c.LeadsTo pos way) : c'.LeadsTo pos way := by
  -- a start names its position, and the other ways name a state whose item stays the same
  cases way with
  | start rule start => exact hl
  | scan id =>
    obtain ⟨s, hs, hpos⟩ := hl
    obtain ⟨s', hs', hitem⟩ := h _ _ hs
    exact ⟨s', hs', by rw [hitem]; exact hpos⟩
  | join id done =>
    obtain ⟨d, hd, hpos⟩ := hl
    obtain ⟨d', hd', hitem⟩ := h _ _ hd
    exact ⟨d', hd', by rw [hitem]; exact hpos⟩

/-- A valid way leads to a proper item, if it does not lead beyond the sentence. This is what lets a
chart stay well-formed when the way is taken. -/
theorem Valid.proper {t : Task} {c : Chart} (hg : t.grammar.Coherent) (hc : c.WellFormed t)
    {way : Way} (hv : c.Valid t way) {q : ChartState} (hq : c.state? t way = some q)
    (hstop : q.item.stop ≤ t.length) : t.Proper q.item := by
  cases way with
  | start rule pos =>
    -- a start has its dot in front of a production that is there
    obtain ⟨p, hp, _⟩ := hv
    rw [state?_start] at hq
    subst hq
    exact ⟨(Array.getElem?_eq_some_iff.1 hp).1, Nat.le_refl _, hstop, Nat.zero_le _, by simp⟩
  | scan id =>
    obtain ⟨s, step, word, hs, hstep, _, _, _, rfl⟩ := state?_scan.1 hq
    -- the dot moves over a step that is there, and the item gets longer by a word
    have hproper := hc.proper hs
    have hle := hproper.start_le
    refine ⟨hproper.rule_lt, ?_, hstop, Task.dot_lt hstep, ?_⟩
    · simp only [advanced]
      omega
    · simp only [advanced]
      omega
  | join id done =>
    obtain ⟨s, d, hs, hd, hfinished, hmeet, hwaits⟩ := hv
    obtain ⟨s', d', hs', hd', rfl⟩ := state?_join.1 hq
    rw [hs, Option.some.injEq] at hs'
    rw [hd, Option.some.injEq] at hd'
    subst hs' hd'
    obtain ⟨step, hstep, _, _⟩ := Task.waitsFor_iff.1 hwaits
    have hproper := hc.proper hs
    -- the finished part covers a word, so the whole does
    have hlt := (hc.proper hd).start_lt hg hfinished
    have hle := hproper.start_le
    refine ⟨hproper.rule_lt, ?_, hstop, Task.dot_lt hstep, ?_⟩
    · simp only [advanced]
      omega
    · simp only [advanced]
      omega

/-- A finished state opens up exactly the valid ways of joining it to a state that waits for it. -/
theorem WellFormed.mem_completions {t : Task} {c : Chart} (h : c.WellFormed t) {id : Nat}
    {way : Way} :
    way ∈ c.completions t id ↔ ∃ w, way = .join w id ∧ c.Valid t (.join w id) := by
  cases hd : c.states[id]? with
  | none => simp [completions, Valid, hd]
  | some d =>
    by_cases hf : t.isFinished d.item = true
    · simp only [completions, hd, hf, if_true, List.mem_map, h.waiting, mem_idsWhere,
        Bool.and_eq_true, beq_iff_eq]
      constructor
      · rintro ⟨w, ⟨s, hs, hstop, hwaits⟩, rfl⟩
        exact ⟨w, rfl, s, d, hs, hd, hf, hstop, hwaits⟩
      · rintro ⟨w, rfl, s, d', hs, hd', _, hstop, hwaits⟩
        rw [hd, Option.some.injEq] at hd'
        subst hd'
        exact ⟨w, ⟨s, hs, hstop, hwaits⟩, rfl⟩
    -- a state that is not finished opens up nothing
    · simp [completions, Valid, hd, hf]

/-- A way that leads no further than to the end of a state depends on that state only as on a
finished part of something else. A scan leads a word further, and a state that waits ends before the
part that it is joined to. Improving a state therefore never invalidates the way that improved it. -/
theorem Valid.eq_join_of_reads {t : Task} {c : Chart} (hg : t.grammar.Coherent)
    (hc : c.WellFormed t) {way : Way} (hv : c.Valid t way) {id pos : Nat} {s : ChartState}
    (hs : c.states[id]? = some s) (hleads : c.LeadsTo pos way) (hpos : pos ≤ s.item.stop)
    (hreads : way.Reads id) : ∃ w, w ≠ id ∧ way = .join w id := by
  cases way with
  | start rule start => exact hreads.elim
  -- a scan leads beyond the state that it starts from
  | scan j =>
    obtain ⟨s', hs', hstop⟩ := hleads
    rw [show j = id from hreads, hs, Option.some.injEq] at hs'
    subst hs'
    omega
  | join j done =>
    obtain ⟨w, d, hw, hd, hfinished, hmeet, _⟩ := hv
    obtain ⟨d', hd', hstop⟩ := hleads
    rw [hd, Option.some.injEq] at hd'
    subst hd'
    have hlt := (hc.proper hd).start_lt hg hfinished
    -- the waiting state ends where the finished part starts, which is too early for it to be `s`
    have hne : j ≠ id := by
      rintro rfl
      rw [hs, Option.some.injEq] at hw
      subst hw
      omega
    rcases hreads with hj | hdone
    · exact absurd hj hne
    · exact ⟨j, hne, by rw [hdone]⟩

/-! ## Predictions -/

/-- Predicting only marks heads as predicted. -/
theorem predictAll_eq (t : Task) (c : Chart) (pos : Nat) (heads : List String) :
    ∃ predicted, (c.predictAll t pos heads).1 = { c with predicted } := by
  -- a head that has been predicted before changes nothing, and a new one is marked
  induction heads generalizing c with
  | nil => exact ⟨c.predicted, rfl⟩
  | cons head rest ih =>
    have hone : ∃ predicted, (c.predict t head pos).1 = { c with predicted } := by
      unfold predict
      simp only
      split
      · exact ⟨c.predicted, rfl⟩
      · exact ⟨_, rfl⟩
    obtain ⟨predicted, hpredicted⟩ := hone
    obtain ⟨predicted', hpredicted'⟩ := ih (c.predict t head pos).1
    refine ⟨predicted', ?_⟩
    rw [predictAll]
    simp only [hpredicted']
    rw [hpredicted]

/-- A predicted way is the start of a production that may start. -/
theorem mem_predictAll {t : Task} {c : Chart} {pos : Nat} {heads : List String} {way : Way}
    (h : way ∈ (c.predictAll t pos heads).2) :
    ∃ head p, p ∈ t.grammar.rulesFor head ∧ mayStart t pos p = true ∧ way = .start p.id pos := by
  induction heads generalizing c with
  | nil => simp [predictAll] at h
  | cons head rest ih =>
    rw [predictAll] at h
    rcases List.mem_append.1 h with h | h
    -- the first head is predicted now, unless it was predicted here before
    · unfold predict at h
      simp only at h
      split at h
      · simp at h
      · simp only [List.mem_map, List.mem_filter] at h
        obtain ⟨p, ⟨hp, hstart⟩, rfl⟩ := h
        exact ⟨head, p, hp, hstart, rfl⟩
    · exact ih h

/-- The start of a production that may start is a valid way. -/
theorem valid_start {t : Task} (hg : t.grammar.Coherent) {c : Chart} {head : String}
    {p : Production} {pos : Nat} (hp : p ∈ t.grammar.rulesFor head)
    (hstart : mayStart t pos p = true) : c.Valid t (.start p.id pos) := by
  refine ⟨p, (hg.mem_rulesFor.1 hp).1, ?_⟩
  simp only [mayStart, Bool.and_eq_true] at hstart
  exact hstart.1

end Chart

namespace Run

/-! ## The invariant -/

/-- The chart is well-formed, nothing ends behind the position of the run, and all pending ways lead
there. -/
structure Placed (t : Task) (r : Run) : Prop where
  wellFormed : r.chart.WellFormed t
  pos_le : r.pos ≤ t.length
  stop_le : ∀ {id : Nat} {s : ChartState}, r.chart.states[id]? = some s → s.item.stop ≤ r.pos
  taken_le : r.taken ≤ (r.chart.endingAt r.pos).size
  valid : ∀ way ∈ r.todo, r.chart.Valid t way
  leadsTo : ∀ way ∈ r.todo, r.chart.LeadsTo r.pos way

/-- In the beginning there are no states; the heads that may start a sentence have been predicted. -/
theorem begin_eq (t : Task) :
    ∃ predicted, begin t
      = ⟨{ predicted }, (Chart.predictAll t {} 0 t.grammar.topHeads).2, 0, 0⟩ := by
  obtain ⟨predicted, hchart⟩ := Chart.predictAll_eq t {} 0 t.grammar.topHeads
  exact ⟨predicted, by simp only [begin, hchart]⟩

/-- The invariant holds in the beginning. No state has been found yet, and the only ways are the
starts that are predicted at the first word. -/
theorem placed_begin {t : Task} (hg : t.grammar.Coherent) : Placed t (.begin t) := by
  obtain ⟨predicted, hbegin⟩ := begin_eq t
  rw [hbegin]
  refine ⟨Chart.wellFormed_empty t predicted, Nat.zero_le _, ?_, Nat.zero_le _, ?_, ?_⟩
  · intro id s hs
    simp at hs
  · intro way hway
    obtain ⟨head, p, hp, hstart, rfl⟩ := Chart.mem_predictAll hway
    exact Chart.valid_start hg hp hstart
  · intro way hway
    obtain ⟨_, p, _, _, rfl⟩ := Chart.mem_predictAll hway
    exact rfl

/-- Every state that is taken up is there and ends at the position of the run. -/
theorem Placed.exists_next {t : Task} {r : Run} (h : Placed t r) {id : Nat}
    (hnext : (r.chart.endingAt r.pos)[r.taken]? = some id) :
    ∃ s, r.chart.states[id]? = some s ∧ s.item.stop = r.pos := by
  rw [← h.wellFormed.mem_endingAt, Array.mem_toList_iff]
  exact Array.mem_of_getElem? hnext

theorem mem_todo {r : Run} {way : Chart.Way} {rest : List Chart.Way} (h : r.todo = way :: rest) :
    way ∈ r.todo := by
  rw [h]
  exact List.mem_cons_self ..

/-- What the next way leads to is proper and ends at the position of the run. -/
theorem Placed.leads {t : Task} (hg : t.grammar.Coherent) {r : Run} (h : Placed t r)
    {way : Chart.Way} (hway : way ∈ r.todo) {s : ChartState}
    (hs : r.chart.state? t way = some s) : s.item.stop = r.pos ∧ t.Proper s.item := by
  have hstop : s.item.stop = r.pos := (Chart.leadsTo_iff hs).1 (h.leadsTo way hway)
  refine ⟨hstop, (h.valid way hway).proper hg h.wellFormed hs ?_⟩
  rw [hstop]
  exact h.pos_le

/-- The state of the item that a way leads to has that item. -/
theorem Placed.item_eq {t : Task} {r : Run} (h : Placed t r) {s old : ChartState} {id : Nat}
    (hknown : r.chart.index[s.item]? = some id) (hold : r.chart.states[id]? = some old) :
    s.item = old.item := by
  obtain ⟨old', hold', hitem⟩ := h.wellFormed.index.1 hknown
  rw [hold, Option.some.injEq] at hold'
  rw [hold', hitem]

/-- A way that improves a state does not depend on it: through a state there is no better way to the
same state. -/
theorem Placed.not_reads {t : Task} (hg : t.grammar.Coherent) {r : Run} (h : Placed t r)
    {way : Chart.Way} (hway : way ∈ r.todo) {s old : ChartState} {id : Nat}
    (hs : r.chart.state? t way = some s) (hold : r.chart.states[id]? = some old)
    (hitem : s.item = old.item) (hbetter : s.score < old.score) : ¬ way.Reads id := by
  intro hreads
  have hstop : r.pos ≤ old.item.stop := by
    rw [← hitem, (h.leads hg hway hs).1]
  obtain ⟨w, _, rfl⟩ :=
    (h.valid way hway).eq_join_of_reads hg h.wellFormed hold (h.leadsTo way hway) hstop hreads
  obtain ⟨ws, d, _, hd, rfl⟩ := Chart.state?_join.1 hs
  rw [hold, Option.some.injEq] at hd
  subst hd
  -- since scores only add up, the whole would be better than its part
  exact absurd hbetter (not_lt.2 (Score.le_add_left ws.score old.score))

/-! ## Every step keeps the invariant -/

/-- The ways behind the next one are valid as well. -/
theorem Placed.valid_rest {t : Task} {r : Run} (h : Placed t r) {way : Chart.Way}
    {rest : List Chart.Way} (htodo : r.todo = way :: rest) : ∀ w ∈ rest, r.chart.Valid t w := by
  intro w hw
  apply h.valid
  rw [htodo]
  exact List.mem_cons_of_mem _ hw

/-- And they lead to the position of the run. -/
theorem Placed.leadsTo_rest {t : Task} {r : Run} (h : Placed t r) {way : Chart.Way}
    {rest : List Chart.Way} (htodo : r.todo = way :: rest) :
    ∀ w ∈ rest, r.chart.LeadsTo r.pos w := by
  intro w hw
  apply h.leadsTo
  rw [htodo]
  exact List.mem_cons_of_mem _ hw

/-- A new state ends at the position of the run, and the list of states to take up only grows. -/
theorem placed_add {t : Task} (hg : t.grammar.Coherent) {r : Run} (h : Placed t r)
    {way : Chart.Way} {rest : List Chart.Way} {s : ChartState} (htodo : r.todo = way :: rest)
    (hleads : r.chart.state? t way = some s) (hnew : r.chart.index[s.item]? = none) :
    Placed t ⟨r.chart.insert t s, rest, r.pos, r.taken⟩ := by
  obtain ⟨hstop, hproper⟩ := h.leads hg (mem_todo htodo) hleads
  have hext := (Chart.extends_insert t r.chart s).retains
  -- states, ways and what has been taken up stay where they were; only the new state is to be looked at
  refine ⟨h.wellFormed.insert hnew hproper, h.pos_le, ?_, ?_,
    fun w hw => (h.valid_rest htodo w hw).mono hext,
    fun w hw => (h.leadsTo_rest htodo w hw).mono hext⟩
  · intro id q hq
    simp only [Chart.getElem?_insert] at hq
    split at hq
    · cases hq
      exact Nat.le_of_eq hstop
    · exact h.stop_le hq
  · have hlen := congrArg List.length (Chart.toList_endingAt_insert t r.chart s r.pos)
    simp only [Array.length_toList, List.length_append] at hlen
    have hle : (r.chart.endingAt r.pos).size ≤ ((r.chart.insert t s).endingAt r.pos).size := by
      omega
    exact Nat.le_trans h.taken_le hle

/-- The ways put in front join the improved state to those that wait for it. They end at the
position of the run as the improved state does. -/
theorem placed_improve {t : Task} (hg : t.grammar.Coherent) {r : Run} (h : Placed t r)
    {way : Chart.Way} {rest : List Chart.Way} {s old : ChartState} {id : Nat}
    (htodo : r.todo = way :: rest) (hleads : r.chart.state? t way = some s)
    (hknown : r.chart.index[s.item]? = some id) (hold : r.chart.states[id]? = some old)
    (hbetter : s.score < old.score) :
    Placed t ⟨r.chart.improve id s, (r.chart.improve id s).completions t id ++ rest, r.pos,
      r.taken⟩ := by
  obtain ⟨hstop, _⟩ := h.leads hg (mem_todo htodo) hleads
  have hitem := h.item_eq hknown hold
  have hext := (Chart.extends_improve hold hitem hbetter).retains
  have hwell := h.wellFormed.improve hold hitem
  -- besides the ways that were pending there are those that join the improved state again
  refine ⟨hwell, h.pos_le, ?_, h.taken_le, ?_, ?_⟩
  · intro j q hq
    simp only [Chart.getElem?_improve hold] at hq
    split at hq
    · cases hq
      exact Nat.le_of_eq hstop
    · exact h.stop_le hq
  · intro w hw
    rcases List.mem_append.1 hw with hw | hw
    · obtain ⟨j, rfl, hvalid⟩ := hwell.mem_completions.1 hw
      exact hvalid
    · exact (h.valid_rest htodo w hw).mono hext
  · intro w hw
    rcases List.mem_append.1 hw with hw | hw
    · obtain ⟨j, rfl, _⟩ := hwell.mem_completions.1 hw
      exact ⟨s, Chart.getElem?_improve_self hold s, hstop⟩
    · exact (h.leadsTo_rest htodo w hw).mono hext

/-- Taking up a state changes nothing in the chart but what is marked as predicted. So all that is
said of the chart carries over, and only the ways that the state opens up have to be looked at. -/
theorem placed_takeUp {t : Task} {r : Run} (h : Placed t r) {id : Nat}
    (hnext : (r.chart.endingAt r.pos)[r.taken]? = some id) (predicted : Std.HashSet (Nat × String))
    {ways : List Chart.Way} (hvalid : ∀ w ∈ ways, r.chart.Valid t w)
    (hleads : ∀ w ∈ ways, r.chart.LeadsTo r.pos w) :
    Placed t ⟨{ r.chart with predicted }, ways, r.pos, r.taken + 1⟩ where
  wellFormed := ⟨h.wellFormed.index, h.wellFormed.endings, h.wellFormed.waiting, h.wellFormed.proper⟩
  pos_le := h.pos_le
  stop_le := h.stop_le
  taken_le := (Array.getElem?_eq_some_iff.1 hnext).1
  valid w hw := by
    have hw := hvalid w hw
    cases w <;> exact hw
  leadsTo w hw := by
    have hw := hleads w hw
    cases w <;> exact hw

/-- The states that are scanned all end at the old position, so the ways from them lead to the next. -/
theorem placed_advance {t : Task} {r : Run} (h : Placed t r) (hpos : r.pos < t.length) :
    Placed t ⟨r.chart, (r.chart.endingAt r.pos).toList.map .scan, r.pos + 1, 0⟩ := by
  refine ⟨h.wellFormed, hpos, fun hs => Nat.le_succ_of_le (h.stop_le hs), Nat.zero_le _, ?_, ?_⟩
  · intro w hw
    obtain ⟨id, _, rfl⟩ := List.mem_map.1 hw
    trivial
  · intro w hw
    obtain ⟨id, hid, rfl⟩ := List.mem_map.1 hw
    obtain ⟨s, hs, hstop⟩ := h.wellFormed.mem_endingAt.1 hid
    exact ⟨s, hs, by rw [hstop]⟩

/-- Every step of a run that goes on keeps the invariant. There is one case for each thing that a
step can do, and what each of them adds is valid and ends where the run stands. -/
theorem Placed.step {t : Task} (hg : t.grammar.Coherent) {r : Run} (h : Placed t r)
    (hgoing : r.halted t = false) : Placed t (r.step t) := by
  generalize hr' : r.step t = r'
  have hmove : Move t r r' := hr' ▸ move_step t r
  cases hmove with
  | settle htodo _ =>
    exact ⟨h.wellFormed, h.pos_le, h.stop_le, h.taken_le, h.valid_rest htodo, h.leadsTo_rest htodo⟩
  | add htodo hleads hfits hnew => exact placed_add hg h htodo hleads hnew
  | improve htodo hleads hknown hold hbetter =>
    exact placed_improve hg h htodo hleads hknown hold hbetter
  | pass htodo hnext _ _ => exact placed_takeUp h hnext r.chart.predicted (by simp) (by simp)
  -- the ways that a state opens up are starts at its stop, or joins to it
  | @predict id s step htodo hnext hs hwaits hnon =>
    apply placed_takeUp h hnext
    · intro w hw
      obtain ⟨p, hp, rfl⟩ := List.mem_map.1 hw
      obtain ⟨hmem, hstart⟩ := List.mem_filter.1 hp
      exact Chart.valid_start hg hmem hstart
    · intro w hw
      obtain ⟨p, _, rfl⟩ := List.mem_map.1 hw
      exact rfl
  | complete htodo hnext hs hfinished =>
    apply placed_takeUp h hnext r.chart.predicted
    · intro w hw
      obtain ⟨j, rfl, hvalid⟩ := h.wellFormed.mem_completions.1 hw
      exact hvalid
    · intro w hw
      obtain ⟨j, rfl, _⟩ := h.wellFormed.mem_completions.1 hw
      exact h.exists_next hnext
  | advance htodo hdone =>
    -- the run has not come to its end, so there is a next word
    apply placed_advance h
    by_contra hge
    have hhalted : r.halted t = true := halted_iff.2 ⟨htodo, hdone, Nat.le_of_not_lt hge⟩
    rw [hhalted] at hgoing
    cases hgoing

/-- Every run that is reached is placed: it is at the beginning, and every step keeps it so. -/
theorem Reached.placed {t : Task} (hg : t.grammar.Coherent) {r : Run} (h : Reached t r) :
    Placed t r := by
  induction h with
  | begin => exact placed_begin hg
  | step _ hgoing ih => exact ih.step hg hgoing

end Run

end Utterance
