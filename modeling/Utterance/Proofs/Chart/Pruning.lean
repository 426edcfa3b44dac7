import Mathlib.Data.List.Forall2
import Utterance.Proofs.Chart.Shape
import Utterance.Proofs.Grammar.Symbols

/-!
# Charts without ruled-out starts

A production whose first step is a word is not even started where another word comes next. A chart
that is filled without looking ahead has these starts as well, and they put all its numbers out. This
module says when one chart is another with the ruled-out starts struck, and shows for everything that
is done to a chart that it keeps two such charts alike: they predict the same heads, join the same
states and improve the same states, up to their numbers. Nothing ever follows from a ruled-out start. It
waits for no head, so nothing is predicted or joined, and the scan of the next word passes it over.
-/

namespace Utterance

/-! ## Ruled-out starts -/

/-- Whether an item is the start of a production by a fixed word that is not the next one. -/
def Task.isRuledOut (t : Task) (i : Item) : Bool :=
  i.dot == 0 && (t.nextStep? i).any fun step =>
    !step.nonterminal && !step.isWild && t.words[i.stop]? != some (Text.lower step.symbol)

/-- The task without looking ahead. -/
def Task.blind (t : Task) : Task := { t with lookahead := false }

namespace Task

variable {t : Task} {i : Item}

/-- What it takes to be ruled out: the item has matched nothing yet, it waits for a fixed word, and
that word is not the next one of the sentence. The lemmas on ruled-out items below read it off here. -/
theorem isRuledOut_iff :
    t.isRuledOut i = true
      ↔ i.dot = 0 ∧ ∃ step, t.nextStep? i = some step ∧ step.nonterminal = false
        ∧ step.isWild = false ∧ t.words[i.stop]? ≠ some (Text.lower step.symbol) := by
  cases h : t.nextStep? i with
  | none => simp [isRuledOut, h]
  | some step => simp [isRuledOut, h, and_assoc]

/-- A ruled-out start is not finished, as it waits for its first word. This is why leaving it out
never takes a derivation away. -/
theorem nextStep?_ne_none_of_isRuledOut (h : t.isRuledOut i = true) : t.nextStep? i ≠ none := by
  obtain ⟨_, step, hstep, _⟩ := isRuledOut_iff.1 h
  simp [hstep]

/-- A finished item is never left out, so all results of the longer chart are in the shorter one. -/
theorem not_isRuledOut_of_isFinished (h : t.isFinished i = true) : t.isRuledOut i = false := by
  by_contra hruled
  apply nextStep?_ne_none_of_isRuledOut (by simpa using hruled)
  exact isFinished_iff.1 h

/-- An item that waits for a head is never left out: looking ahead is about fixed words only. Every
state that a finished part can be joined to is therefore in both charts. -/
theorem not_isRuledOut_of_waitsFor {name : String} (h : t.waitsFor i name = true) :
    t.isRuledOut i = false := by
  by_contra hruled
  obtain ⟨_, step, hstep, hterminal, _⟩ := isRuledOut_iff.1 (by simpa using hruled)
  obtain ⟨step', hstep', hnonterminal, _⟩ := waitsFor_iff.1 h
  rw [hstep, Option.some.injEq] at hstep'
  subst hstep'
  simp [hterminal] at hnonterminal

end Task

/-- Looking ahead leaves out just the ruled-out starts: a production may start at a position if it
may start there without looking ahead and its start is not ruled out.

The words of a tidy grammar are not empty, which keeps the end of the sentence, read as an empty
word, from being mistaken for a match. -/
theorem Chart.mayStart_eq {t : Task} (ht : t.lookahead = true) (hg : t.grammar.Tidy) {p : Production}
    (hp : t.grammar.productions[p.id]? = some p) (pos : Nat) :
    mayStart t pos p = (mayStart t.blind pos p && !t.isRuledOut ⟨p.id, pos, pos, 0⟩) := by
  have hnext : t.nextStep? ⟨p.id, pos, pos, 0⟩ = p.steps.head? := by
    simp [Task.nextStep?, Task.steps, hp, List.head?_eq_getElem?]
  cases hfirst : p.steps.head? with
  | none => simp [mayStart, hfirst]
  | some first =>
    -- no word is empty, so none matches the end of the sentence
    have hword : Text.lower first.symbol ≠ "" :=
      (hg.isWord_at hp (List.mem_of_head? hfirst)).lower_ne_empty
    have hsame : (Text.lower first.symbol == (t.words[pos]?).getD "")
        = !(t.words[pos]? != some (Text.lower first.symbol)) := by
      cases t.words[pos]? with
      | none => simp [bne, hword]
      | some word => simp [bne, eq_comm]
    simp only [mayStart, hfirst, ht, Task.isRuledOut, hnext, Task.blind, hsame, Option.any_some]
    cases p.status.isUsable <;> cases first.nonterminal <;> cases first.isWild <;> simp

namespace Chart

/-- The index sends an item to a state for that very item. -/
theorem WellFormed.item_of_index {t : Task} {c : Chart} (h : c.WellFormed t) {i : Item} {id : Nat}
    {s : ChartState} (hid : c.index[i]? = some id) (hs : c.states[id]? = some s) : i = s.item := by
  obtain ⟨s', hs', hitem⟩ := h.index.1 hid
  rw [hs, Option.some.injEq] at hs'
  rw [hs', hitem]

/-! ## Matching states -/

/-- Whether a number is that of a state that is not ruled out. -/
def keeps (t : Task) (c : Chart) (id : Nat) : Bool :=
  (c.states[id]?).any fun s => !t.isRuledOut s.item

/-- The numbers of the states that are not ruled out. -/
def kept (t : Task) (c : Chart) : List Nat := c.idsWhere fun i => !t.isRuledOut i

/-- The number `j` stands at place `i`. -/
def Pairs (ids : List Nat) (i j : Nat) : Prop := ids[i]? = some j

/-- A number keeps its place when the list of kept numbers gets longer. -/
theorem Pairs.append {ids : List Nat} {i j : Nat} (h : Pairs ids i j) (more : List Nat) :
    Pairs (ids ++ more) i j := by
  have hlt : i < ids.length := (List.getElem?_eq_some_iff.1 h).1
  rw [Pairs, List.getElem?_append_left hlt]
  exact h

theorem pairwise_idsWhere (c : Chart) (p : Item → Bool) : (c.idsWhere p).Pairwise (· < ·) :=
  List.Pairwise.filter _ List.pairwise_lt_range

/-- A number stands at one place only. Together with `Pairs` being a partial function by definition,
this makes it a one-to-one correspondence between the states of the two charts. -/
theorem Pairs.left_inj {t : Task} {c : Chart} {i i' j : Nat} (h : Pairs (c.kept t) i j)
    (h' : Pairs (c.kept t) i' j) : i = i' := by
  have hnodup : (c.kept t).Nodup := (pairwise_idsWhere c _).imp Nat.ne_of_lt
  have hlt : i < (c.kept t).length := (List.getElem?_eq_some_iff.1 h).1
  exact (List.getElem?_inj hlt hnodup).1 (h.trans h'.symm)

/-- A number that is kept names a state, which is not ruled out. -/
theorem Pairs.exists_state {t : Task} {c : Chart} {i j : Nat} (h : Pairs (c.kept t) i j) :
    ∃ s, c.states[j]? = some s ∧ t.isRuledOut s.item = false := by
  obtain ⟨s, hs, hkept⟩ := mem_idsWhere.1 (List.mem_of_getElem? h)
  exact ⟨s, hs, by simpa using hkept⟩

/-- A state that is not ruled out has a place among the kept ones. -/
theorem exists_pairs {t : Task} {c : Chart} {j : Nat} {s : ChartState} (hs : c.states[j]? = some s)
    (hkept : t.isRuledOut s.item = false) : ∃ i, Pairs (c.kept t) i j := by
  apply List.getElem?_of_mem
  exact mem_idsWhere.2 ⟨s, hs, by simp [hkept]⟩

/-- Two states are the same up to the numbers that they point at. -/
structure Alike (ids : List Nat) (s s' : ChartState) : Prop where
  item : s.item = s'.item
  score : s.score = s'.score
  prev : Option.Rel (Pairs ids) s.prev s'.prev
  child : Option.Rel (Pairs ids) s.child s'.child

/-- States that are alike stay so when further numbers are kept. -/
theorem Alike.append {ids : List Nat} {s s' : ChartState} (h : Alike ids s s') (more : List Nat) :
    Alike (ids ++ more) s s' := by
  have hrel : ∀ {a b : Option Nat}, Option.Rel (Pairs ids) a b →
      Option.Rel (Pairs (ids ++ more)) a b := by
    intro a b hab
    cases hab with
    | some hab => exact .some (hab.append more)
    | none => exact .none
  exact ⟨h.item, h.score, hrel h.prev, hrel h.child⟩

/-- Advancing two states that are alike by parts that are alike gives states that are alike: the
back pointers are the paired numbers, and the same cost is added to the same score. -/
theorem Alike.advanced {ids : List Nat} {s s' : ChartState} (h : Alike ids s s') {i j : Nat}
    (hij : Pairs ids i j) (stop : Nat) {child child' : Option Nat}
    (hchild : Option.Rel (Pairs ids) child child') (cost : Score) :
    Alike ids (advanced i s stop child cost) (advanced j s' stop child' cost) := by
  refine ⟨?_, ?_, .some hij, hchild⟩
  · simp only [Chart.advanced, h.item]
  · simp only [Chart.advanced, h.score]

/-! ## Matching charts -/

/-- The states of the first chart are those of the second that are not ruled out, in order and up to
numbers. -/
structure Prunes (t : Task) (c c' : Chart) : Prop where
  predicted : c.predicted = c'.predicted
  size : c.states.size = (c'.kept t).length
  state : ∀ {i j : Nat} {s' : ChartState}, Pairs (c'.kept t) i j → c'.states[j]? = some s' →
    ∃ s, c.states[i]? = some s ∧ Alike (c'.kept t) s s'

section Prunes

variable {t : Task} {c c' : Chart}

/-- A pair of numbers names a state in each chart, and the two are alike. All lemmas below that
compare the charts state by state take them from here. -/
theorem Prunes.exists_states (h : Prunes t c c') {i j : Nat} (hij : Pairs (c'.kept t) i j) :
    ∃ s s', c.states[i]? = some s ∧ c'.states[j]? = some s' ∧ Alike (c'.kept t) s s'
      ∧ t.isRuledOut s'.item = false := by
  obtain ⟨s', hs', hkept⟩ := hij.exists_state
  obtain ⟨s, hs, halike⟩ := h.state hij hs'
  exact ⟨s, s', hs, hs', halike, hkept⟩

/-- A new state is kept under the number that it gets, unless it is ruled out. -/
theorem kept_insert (t t' : Task) (c : Chart) (s : ChartState) :
    (c.insert t' s).kept t
      = c.kept t ++ if t.isRuledOut s.item then [] else [c.states.size] := by
  rw [kept, idsWhere_insert]
  cases t.isRuledOut s.item <;> rfl

theorem kept_improve {id : Nat} {old s : ChartState} (hold : c.states[id]? = some old)
    (hitem : s.item = old.item) : (c.improve id s).kept t = c.kept t :=
  idsWhere_improve hold hitem _

/-- States that are alike may be added to both charts: each comes last in its own chart, and the
pair of their numbers comes last among the kept ones. This is the step where the numbers of the two
charts get out of line, and the pairing takes note of it. -/
theorem Prunes.insert (h : Prunes t c c') {s s' : ChartState} (halike : Alike (c'.kept t) s s')
    (hkept : t.isRuledOut s'.item = false) :
    Prunes t (c.insert t s) (c'.insert t.blind s') := by
  have hids : (c'.insert t.blind s').kept t = c'.kept t ++ [c'.states.size] := by
    simp [kept_insert, hkept]
  refine ⟨h.predicted, ?_, ?_⟩
  · rw [hids, List.length_append, ← h.size]
    simp [Chart.insert]
  · intro i j q' hij hq'
    rw [hids] at hij ⊢
    rw [getElem?_insert] at hq'
    by_cases hi : i = (c'.kept t).length
    -- both new states come last
    · subst hi
      have hj : c'.states.size = j := by simpa [Pairs] using hij
      rw [if_pos hj.symm, Option.some.injEq] at hq'
      subst hq'
      refine ⟨s, ?_, halike.append _⟩
      rw [getElem?_insert, if_pos h.size.symm]
    -- an older pair is as it was, since neither chart has changed its states
    · have hlt : i < (c'.kept t).length := by
        have := (List.getElem?_eq_some_iff.1 hij).1
        rw [List.length_append, List.length_singleton] at this
        omega
      have hold : Pairs (c'.kept t) i j := by
        rw [Pairs, List.getElem?_append_left hlt] at hij
        exact hij
      obtain ⟨r, r', hr, hr', hrr', _⟩ := h.exists_states hold
      have hj : j ≠ c'.states.size := Nat.ne_of_lt (Array.getElem?_eq_some_iff.1 hr').1
      rw [if_neg hj, hr', Option.some.injEq] at hq'
      subst hq'
      exact ⟨r, getElem?_insert_of_some t s hr, hrr'.append _⟩

/-- A ruled-out start is added to the second chart only. -/
theorem Prunes.insert_right (h : Prunes t c c') {s' : ChartState}
    (hruled : t.isRuledOut s'.item = true) : Prunes t c (c'.insert t.blind s') := by
  have hids : (c'.insert t.blind s').kept t = c'.kept t := by simp [kept_insert, hruled]
  refine ⟨h.predicted, by rw [hids]; exact h.size, ?_⟩
  intro i j q' hij hq'
  rw [hids] at hij ⊢
  obtain ⟨r, r', hr, hr', hrr', _⟩ := h.exists_states hij
  rw [getElem?_insert_of_some t.blind s' hr', Option.some.injEq] at hq'
  subst hq'
  exact ⟨r, hr, hrr'⟩

/-- Paired states may be improved together. No number moves, so it is enough to look at the two that
have been rewritten. -/
theorem Prunes.improve (h : Prunes t c c') {i j : Nat} (hij : Pairs (c'.kept t) i j)
    {old old' s s' : ChartState} (hold : c.states[i]? = some old)
    (hold' : c'.states[j]? = some old') (hitem : s'.item = old'.item)
    (halike : Alike (c'.kept t) s s') : Prunes t (c.improve i s) (c'.improve j s') := by
  refine ⟨h.predicted, ?_, ?_⟩
  · rw [kept_improve hold' hitem, ← h.size]
    simp [Chart.improve]
  · intro k l q' hkl hq'
    rw [kept_improve hold' hitem] at hkl ⊢
    rw [getElem?_improve hold'] at hq'
    rw [getElem?_improve hold]
    by_cases hl : l = j
    · subst hl
      rw [if_pos rfl, Option.some.injEq] at hq'
      subst hq'
      rw [if_pos (hkl.left_inj hij)]
      exact ⟨s, rfl, halike⟩
    · rw [if_neg hl] at hq'
      -- states with different numbers here have different numbers there
      have hk : k ≠ i := by
        rintro rfl
        exact hl (Option.some.inj (hkl.symm.trans hij))
      rw [if_neg hk]
      exact h.state hkl hq'

/-- A ruled-out state may be improved in the second chart alone, since no pair mentions it. -/
theorem Prunes.improve_right (h : Prunes t c c') {j : Nat} {old' s' : ChartState}
    (hold' : c'.states[j]? = some old') (hitem : s'.item = old'.item)
    (hruled : t.isRuledOut old'.item = true) : Prunes t c (c'.improve j s') := by
  refine ⟨h.predicted, by rw [kept_improve hold' hitem]; exact h.size, ?_⟩
  intro k l q' hkl hq'
  rw [kept_improve hold' hitem] at hkl ⊢
  obtain ⟨r, r', hr, hr', hrr', hkept⟩ := h.exists_states hkl
  -- the states that pairs mention are kept, and the one that is improved is ruled out
  have hl : l ≠ j := by
    rintro rfl
    rw [hold', Option.some.injEq] at hr'
    subst hr'
    simp [hruled] at hkept
  rw [getElem?_improve_of_ne hold' s' hl, hr', Option.some.injEq] at hq'
  subst hq'
  exact ⟨r, hr, hrr'⟩

/-- Both charts have a state for an item, or neither has, unless it is ruled out. So the lookup that
decides whether an item is new answers alike in both. -/
theorem Prunes.index (h : Prunes t c c') (hc : c.WellFormed t) (hc' : c'.WellFormed t.blind)
    {i : Item} (hkept : t.isRuledOut i = false) :
    Option.Rel (Pairs (c'.kept t)) c.index[i]? c'.index[i]? := by
  cases hj : c'.index[i]? with
  | some j =>
    obtain ⟨s', hs', hitem⟩ := hc'.index.1 hj
    obtain ⟨k, hk⟩ := exists_pairs (t := t) hs' (by rw [hitem]; exact hkept)
    obtain ⟨s, hs, halike⟩ := h.state hk hs'
    have hindex : c.index[i]? = some k := hc.index.2 ⟨s, hs, halike.item.trans hitem⟩
    rw [hindex]
    exact .some hk
  -- a state of the first chart stands for one of the second, so it cannot be there alone
  | none =>
    cases hk : c.index[i]? with
    | none => exact .none
    | some k =>
      obtain ⟨s, hs, hitem⟩ := hc.index.1 hk
      have hlt : k < (c'.kept t).length := by
        rw [← h.size]
        exact (Array.getElem?_eq_some_iff.1 hs).1
      have hpairs : Pairs (c'.kept t) k (c'.kept t)[k] := List.getElem?_eq_getElem hlt
      obtain ⟨r, r', hr, hr', hrr', _⟩ := h.exists_states hpairs
      rw [hs, Option.some.injEq] at hr
      subst hr
      have hindex := hc'.index.2 ⟨r', hr', hrr'.item.symm.trans hitem⟩
      rw [hj] at hindex
      cases hindex

/-- The places in a list of numbers are paired with the numbers, one by one. -/
theorem forall₂_pairs (ids : List Nat) : List.Forall₂ (Pairs ids) (List.range ids.length) ids := by
  rw [List.forall₂_iff_get]
  refine ⟨by simp, fun i hi hi' => ?_⟩
  simp [Pairs, List.getElem?_eq_getElem hi']

/-- What one chart lists, the other lists as well, less what is ruled out. -/
theorem Prunes.idsWhere (h : Prunes t c c') (p : Item → Bool) :
    List.Forall₂ (Pairs (c'.kept t)) (c.idsWhere p)
      ((c'.idsWhere p).filter (c'.keeps t)) := by
  have hswap : (c'.idsWhere p).filter (c'.keeps t)
      = (c'.kept t).filter fun j => (c'.states[j]?).any fun s => p s.item := by
    simp only [kept, keeps, Chart.idsWhere, List.filter_filter, Bool.and_comm]
  rw [hswap, Chart.idsWhere, h.size]
  refine List.rel_filter (fun i j hij => ?_) (forall₂_pairs _)
  obtain ⟨s, s', hs, hs', halike, _⟩ := h.exists_states hij
  simp [hs, hs', halike.item]

/-- Nothing is struck from a list without ruled-out starts. -/
theorem Prunes.idsWhere_of_imp (h : Prunes t c c') {p : Item → Bool}
    (hp : ∀ i, p i = true → t.isRuledOut i = false) :
    List.Forall₂ (Pairs (c'.kept t)) (c.idsWhere p) (c'.idsWhere p) := by
  have hall : (c'.idsWhere p).filter (c'.keeps t) = c'.idsWhere p := by
    rw [List.filter_eq_self]
    intro j hj
    obtain ⟨s, hs, hps⟩ := mem_idsWhere.1 hj
    simp [keeps, hs, hp _ hps]
  have hlists := h.idsWhere p
  rwa [hall] at hlists

end Prunes

/-! ## Matching ways -/

/-- Two ways are the same up to numbers. -/
inductive SameWay (t : Task) (ids : List Nat) : Way → Way → Prop where
  | start {rule pos : Nat} (kept : t.isRuledOut ⟨rule, pos, pos, 0⟩ = false) :
      SameWay t ids (.start rule pos) (.start rule pos)
  | scan {i j : Nat} (pairs : Pairs ids i j) : SameWay t ids (.scan i) (.scan j)
  | join {i j k l : Nat} (pairs : Pairs ids i j) (pairs' : Pairs ids k l) :
      SameWay t ids (.join i k) (.join j l)

/-- Ways that are the same stay so when further numbers are kept. -/
theorem SameWay.append {t : Task} {ids : List Nat} {w w' : Way} (h : SameWay t ids w w')
    (more : List Nat) : SameWay t (ids ++ more) w w' := by
  cases h with
  | start kept => exact .start kept
  | scan pairs => exact .scan (pairs.append more)
  | join pairs pairs' => exact .join (pairs.append more) (pairs'.append more)

/-- A way about a ruled-out start: its prediction, or its scan. -/
def Idle (t : Task) (c : Chart) : Way → Prop
  | .start rule pos => t.isRuledOut ⟨rule, pos, pos, 0⟩ = true
  | .scan id => ∃ s, c.states[id]? = some s ∧ t.isRuledOut s.item = true
  | .join _ _ => False

/-- A way stays idle: a later chart has states for the same items, and being ruled out is a matter
of the item. -/
theorem Idle.mono {t : Task} {c c' : Chart} (h : c.Retains c') {way : Way} (hidle : Idle t c way) :
    Idle t c' way := by
  cases way with
  | start rule pos => exact hidle
  | scan id =>
    obtain ⟨s, hs, hruled⟩ := hidle
    obtain ⟨s', hs', hitem⟩ := h id s hs
    exact ⟨s', hs', by rw [hitem]; exact hruled⟩
  | join id done => exact hidle

/-- The first list is the second without idle ways, up to numbers. -/
inductive Thins (t : Task) (c : Chart) : List Way → List Way → Prop where
  | nil : Thins t c [] []
  | both {w w' : Way} {ws ws' : List Way} (same : SameWay t (c.kept t) w w')
      (rest : Thins t c ws ws') : Thins t c (w :: ws) (w' :: ws')
  | skip {w' : Way} {ws ws' : List Way} (idle : Idle t c w') (rest : Thins t c ws ws') :
      Thins t c ws (w' :: ws')

/-- The correspondence of two agendas outlives every growth of the second chart. -/
theorem Thins.mono {t : Task} {c c' : Chart} (hc : c.Retains c') {more : List Nat}
    (hids : c'.kept t = c.kept t ++ more) {ws ws' : List Way} (h : Thins t c ws ws') :
    Thins t c' ws ws' := by
  induction h with
  | nil => exact .nil
  | both same _ ih =>
    apply Thins.both _ ih
    rw [hids]
    exact same.append more
  | skip idle _ ih => exact .skip (idle.mono hc) ih

/-- Agendas that agree way by way correspond, with nothing skipped. -/
theorem Thins.of_forall₂ {t : Task} {c : Chart} {ws ws' : List Way}
    (h : List.Forall₂ (SameWay t (c.kept t)) ws ws') : Thins t c ws ws' := by
  induction h with
  | nil => exact .nil
  | cons same _ ih => exact .both same ih

/-- Agendas are compared part by part, which is how new work is put in front of old. -/
theorem Thins.append {t : Task} {c : Chart} {ws ws' vs vs' : List Way} (h : Thins t c ws ws')
    (h' : Thins t c vs vs') : Thins t c (ws ++ vs) (ws' ++ vs') := by
  induction h with
  | nil => exact h'
  | both same _ ih => exact .both same ih
  | skip idle _ ih => exact .skip idle ih

/-! ## Both charts do the same -/

section Steps

variable {t : Task} {c c' : Chart}

/-- Ways that are the same lead to states that are the same. Both charts look at the same step of
the same production and at the same word; only the numbers that are pointed at differ. -/
theorem Prunes.state? (h : Prunes t c c') {w w' : Way} (hw : SameWay t (c'.kept t) w w') :
    Option.Rel (Alike (c'.kept t)) (c.state? t w) (c'.state? t.blind w') := by
  cases hw with
  | start _ => exact .some ⟨rfl, rfl, .none, .none⟩
  | scan pairs =>
    obtain ⟨s, s', hs, hs', halike, _⟩ := h.exists_states pairs
    have hnext : t.blind.nextStep? s'.item = t.nextStep? s'.item := rfl
    have hwords : t.blind.words = t.words := rfl
    have hsteps : t.blind.steps s'.item.rule = t.steps s'.item.rule := rfl
    simp only [Chart.state?, hs, hs', halike.item, hnext, hwords, hsteps, Option.bind_eq_bind,
      Option.bind_some]
    cases t.nextStep? s'.item with
    | none => exact .none
    | some step =>
      cases t.words[s'.item.stop]? with
      | none => exact .none
      | some word =>
        simp only [Option.bind_some]
        -- both charts look at the same step and the same word
        split
        · exact .none
        · split
          · exact .some (halike.advanced pairs _ .none _)
          · split
            · exact .some (halike.advanced pairs _ .none _)
            · exact .none
  -- joining looks at nothing but the two states, and both are paired
  | join pairs pairs' =>
    obtain ⟨s, s', hs, hs', halike, _⟩ := h.exists_states pairs
    obtain ⟨d, d', hd, hd', halike', _⟩ := h.exists_states pairs'
    simp only [Chart.state?, hs, hs', hd, hd', halike'.item, halike'.score, Option.bind_eq_bind,
      Option.bind_some]
    exact .some (halike.advanced pairs _ (.some pairs') _)

/-- Only a start leads to an item without matched steps. -/
theorem SameWay.not_isRuledOut {ids : List Nat} {w w' : Way} (h : SameWay t ids w w')
    {s' : ChartState} (hs' : c'.state? t.blind w' = some s') : t.isRuledOut s'.item = false := by
  have hdot : s'.item.dot ≠ 0 → t.isRuledOut s'.item = false := by
    intro hne
    simp [Task.isRuledOut, hne]
  -- every other way takes a state one step further, so its dot is not at the beginning
  cases h with
  | start kept =>
    rw [state?_start.1 hs']
    exact kept
  | scan pairs =>
    obtain ⟨_, _, _, _, _, _, _, _, rfl⟩ := state?_scan.1 hs'
    exact hdot (Nat.succ_ne_zero _)
  | join pairs pairs' =>
    obtain ⟨_, _, _, _, rfl⟩ := state?_join.1 hs'
    exact hdot (Nat.succ_ne_zero _)

/-- An idle way leads nowhere or to a ruled-out start. The scan of a ruled-out start fails, since
the next word is not the one that it waits for. -/
theorem Idle.state? {way : Way} (hidle : Idle t c way) :
    c.state? t.blind way = none
      ∨ ∃ s, c.state? t.blind way = some s ∧ t.isRuledOut s.item = true := by
  cases way with
  | start rule pos => exact .inr ⟨_, rfl, hidle⟩
  | scan id =>
    obtain ⟨s, hs, hruled⟩ := hidle
    left
    rw [Option.eq_none_iff_forall_ne_some]
    intro q hq
    obtain ⟨s', step, word, hs', hstep, hword, _, haccepts, _⟩ := state?_scan.1 hq
    rw [hs, Option.some.injEq] at hs'
    subst hs'
    -- the next word is not the one that the start waits for
    obtain ⟨_, step', hstep', _, hwild, hother⟩ := Task.isRuledOut_iff.1 hruled
    have hsame : step' = step := Option.some.inj (hstep'.symm.trans hstep)
    subst hsame
    apply hother
    rw [show t.words[s.item.stop]? = some word from hword]
    rw [haccepts.resolve_left (by simp [hwild])]
  | join id done => exact hidle.elim

/-- What is offered to both charts is added to both, improves both or changes neither. The number
that an improvement gives is that of the same state in both charts. -/
theorem Prunes.offer (h : Prunes t c c') (hc : c.WellFormed t) (hc' : c'.WellFormed t.blind)
    {s s' : ChartState} (halike : Alike (c'.kept t) s s')
    (hkept : t.isRuledOut s'.item = false) :
    Prunes t (c.offer t s).1 (c'.offer t.blind s').1
      ∧ Option.Rel (Pairs ((c'.offer t.blind s').1.kept t)) (c.offer t s).2
        (c'.offer t.blind s').2 := by
  have hfits : t.blind.fits s'.item = t.fits s'.item := rfl
  have hindex := h.index hc hc' hkept
  -- both lookups answer alike, so the three outcomes of an offer come in pairs
  unfold Chart.offer
  rw [halike.item, hfits]
  split
  · exact ⟨h, .none⟩
  · generalize c.index[s'.item]? = known at hindex ⊢
    generalize hknown : c'.index[s'.item]? = known' at hindex ⊢
    cases hindex with
    | none => exact ⟨h.insert halike hkept, .none⟩
    | some hij =>
      obtain ⟨old, old', hold, hold', halike', _⟩ := h.exists_states hij
      simp only [hold, hold', halike.score, halike'.score]
      split
      · have hitem : s'.item = old'.item := hc'.item_of_index hknown hold'
        refine ⟨h.improve hij hold hold' hitem halike, ?_⟩
        rw [kept_improve hold' hitem]
        exact .some hij
      · exact ⟨h, .none⟩

/-- What an idle way leads to changes nothing that matters, and nothing follows from it: its state
is a start whose first word does not come next, so it is never finished. -/
theorem Prunes.offer_right (h : Prunes t c c') (hc' : c'.WellFormed t.blind) {s' : ChartState}
    (hruled : t.isRuledOut s'.item = true) :
    Prunes t c (c'.offer t.blind s').1
      ∧ ∀ id, (c'.offer t.blind s').2 = some id →
        (c'.offer t.blind s').1.completions t.blind id = [] := by
  -- only the second chart changes, and only at a ruled-out item
  rcases c'.offer_cases t.blind s' with
    ⟨hoffer, _⟩ | ⟨_, _, hoffer⟩ | ⟨old', j, hknown, hold', _, hoffer⟩
  · rw [hoffer]
    exact ⟨h, fun id hid => by cases hid⟩
  · rw [hoffer]
    exact ⟨h.insert_right hruled, fun id hid => by cases hid⟩
  · have hitem : s'.item = old'.item := hc'.item_of_index hknown hold'
    rw [hoffer]
    refine ⟨h.improve_right hold' hitem (by rw [← hitem]; exact hruled), ?_⟩
    intro id hid
    cases hid
    -- a start is not finished
    have hunfinished : t.blind.isFinished s'.item = false := by
      by_contra hfinished
      apply Task.nextStep?_ne_none_of_isRuledOut hruled
      exact Task.isFinished_iff (t := t.blind).1 (by simpa using hfinished)
    simp [completions, getElem?_improve_self hold', hunfinished]

/-- A chart is prolonged: states keep their numbers, and all lists get longer at their ends. -/
structure Grows (t : Task) (c c' : Chart) : Prop where
  retains : c.Retains c'
  kept : ∃ more, c'.kept t = c.kept t ++ more
  endings : ∀ pos, ∃ more, (c'.endingAt pos).toList = (c.endingAt pos).toList ++ more

/-- A chart whose states and lists are the same has been prolonged by nothing. -/
theorem Grows.of_eq (hstates : c'.states = c.states) (hendings : c'.endings = c.endings) :
    Grows t c c' where
  retains := (extends_of_states_eq hstates).retains
  kept := ⟨[], by simp [Chart.kept, Chart.idsWhere, hstates]⟩
  endings pos := ⟨[], by simp [endingAt, hendings]⟩

/-- Offering a state prolongs a chart, whatever comes of the offer. -/
theorem grows_offer {t' : Task} (hc : c.WellFormed t') (s : ChartState) :
    Grows t c (c.offer t' s).1 := by
  -- nothing comes of the offer, or a state is added at the end of its lists, or one is improved
  rcases c.offer_cases t' s with
    ⟨hoffer, _⟩ | ⟨_, _, hoffer⟩ | ⟨old, id, hknown, hold, hbetter, hoffer⟩
  · rw [hoffer]
    exact .of_eq rfl rfl
  · rw [hoffer]
    exact ⟨(extends_insert t' c s).retains, ⟨_, kept_insert t t' c s⟩,
      fun pos => ⟨_, toList_endingAt_insert t' c s pos⟩⟩
  -- an improved state keeps its number and its places
  · have hitem : s.item = old.item := hc.item_of_index hknown hold
    rw [hoffer]
    exact ⟨(extends_improve hold hitem hbetter).retains,
      ⟨[], by rw [kept_improve hold hitem, List.append_nil]⟩,
      fun pos => ⟨[], by rw [List.append_nil]; rfl⟩⟩

/-- Agendas that correspond still do when the second chart has been prolonged. -/
theorem Thins.grows (hc : Grows t c c') {ws ws' : List Way} (h : Thins t c ws ws') :
    Thins t c' ws ws' := by
  obtain ⟨more, hmore⟩ := hc.kept
  exact h.mono hc.retains hmore

/-- The states that have been taken up so far stay the same. -/
theorem Grows.countP_take {t' : Task} (h : Grows t c c') (hc : c.WellFormed t') {pos n : Nat}
    (hn : n ≤ (c.endingAt pos).size) :
    ((c'.endingAt pos).toList.take n).countP (c'.keeps t)
      = ((c.endingAt pos).toList.take n).countP (c.keeps t) := by
  obtain ⟨more, hmore⟩ := h.endings pos
  rw [hmore, List.take_append_of_le_length (by simpa using hn)]
  -- whether a state is kept depends on its item, which stays
  apply List.countP_congr
  intro id hid
  obtain ⟨s, hs, _⟩ := hc.mem_endingAt.1 (List.mem_of_mem_take hid)
  obtain ⟨s', hs', hitem⟩ := h.retains id s hs
  simp [keeps, hs, hs', hitem]

/-- Finishing paired states opens up the same joins: the states that wait for a head are all kept,
so the two lists of waiting states match without anything being struck from them. -/
theorem Prunes.completions (h : Prunes t c c') (hc : c.WellFormed t) (hc' : c'.WellFormed t.blind)
    {i j : Nat} (hij : Pairs (c'.kept t) i j) :
    List.Forall₂ (SameWay t (c'.kept t)) (c.completions t i) (c'.completions t.blind j) := by
  obtain ⟨s, s', hs, hs', halike, _⟩ := h.exists_states hij
  have hfinished : t.blind.isFinished s'.item = t.isFinished s'.item := rfl
  have hhead : t.blind.head s'.item = t.head s'.item := rfl
  simp only [Chart.completions, hs, hs', halike.item, hfinished, hhead]
  split
  · rw [hc.waiting, hc'.waiting]
    have hwaiting := h.idsWhere_of_imp
      (p := fun i => i.stop == s'.item.start && t.waitsFor i (t.head s'.item))
      (fun i hi => Task.not_isRuledOut_of_waitsFor (Bool.and_eq_true_iff.1 hi).2)
    rw [List.forall₂_map_left_iff, List.forall₂_map_right_iff]
    exact hwaiting.imp fun k l hkl => .join hkl hij
  · exact .nil

/-- What is predicted is the same, less the ruled-out starts. Both runs go through the productions
of the head in the same order. -/
theorem thins_starts (ht : t.lookahead = true) (hg : t.grammar.Coherent) (htidy : t.grammar.Tidy)
    (head : String) (pos : Nat) :
    Thins t c
      (((t.grammar.rulesFor head).filter (mayStart t pos)).map fun p => .start p.id pos)
      (((t.blind.grammar.rulesFor head).filter (mayStart t.blind pos)).map fun p =>
        .start p.id pos) := by
  have hall : ∀ p ∈ t.grammar.rulesFor head, mayStart t pos p
      = (mayStart t.blind pos p && !t.isRuledOut ⟨p.id, pos, pos, 0⟩) :=
    fun p hp => mayStart_eq ht htidy (hg.mem_rulesFor.1 hp).1 pos
  show Thins t c _ (((t.grammar.rulesFor head).filter (mayStart t.blind pos)).map _)
  -- by induction on the productions of the head, in the order of the grammar
  generalize t.grammar.rulesFor head = ps at hall ⊢
  induction ps with
  | nil => exact .nil
  | cons p ps ih =>
    have ih := ih fun q hq => hall q (List.mem_cons_of_mem _ hq)
    have hp := hall p (List.mem_cons_self ..)
    cases hblind : mayStart t.blind pos p with
    | false =>
      rw [hblind, Bool.false_and] at hp
      simpa [hp, hblind] using ih
    | true =>
      rw [hblind, Bool.true_and] at hp
      cases hruled : t.isRuledOut ⟨p.id, pos, pos, 0⟩ with
      -- a start that is ruled out is followed by the second run only
      | true =>
        rw [hruled, Bool.not_true] at hp
        simp only [List.filter_cons, hp, hblind, if_true, Bool.false_eq_true, if_false, List.map_cons]
        exact .skip hruled ih
      | false =>
        rw [hruled, Bool.not_false] at hp
        simp only [List.filter_cons, hp, hblind, if_true, List.map_cons]
        exact .both (.start hruled) ih

/-- The correspondence is about the states and the predicted heads; everything else in a chart
follows from these and may be replaced. -/
theorem Prunes.of_states_eq (h : Prunes t c c') {d d' : Chart} (hd : d.states = c.states)
    (hd' : d'.states = c'.states) (hpredicted : d.predicted = d'.predicted) : Prunes t d d' := by
  have hkept : d'.kept t = c'.kept t := by simp [kept, Chart.idsWhere, hd']
  refine ⟨hpredicted, by rw [hd, hkept]; exact h.size, ?_⟩
  rw [hd, hd', hkept]
  exact h.state

/-- Predicting a head marks it in both charts and opens up the same starts, less the ruled-out ones. -/
theorem Prunes.predict (h : Prunes t c c') (ht : t.lookahead = true) (hg : t.grammar.Coherent)
    (htidy : t.grammar.Tidy) (head : String) (pos : Nat) :
    Prunes t (c.predict t head pos).1 (c'.predict t.blind head pos).1
      ∧ Thins t (c'.predict t.blind head pos).1 (c.predict t head pos).2
        (c'.predict t.blind head pos).2 := by
  unfold Chart.predict
  simp only [h.predicted]
  split
  · exact ⟨h, .nil⟩
  · exact ⟨h.of_states_eq rfl rfl rfl, thins_starts ht hg htidy head pos⟩

/-- What holds of one head holds of a list of them, taken one after another. -/
theorem Prunes.predictAll (h : Prunes t c c') (ht : t.lookahead = true) (hg : t.grammar.Coherent)
    (htidy : t.grammar.Tidy) (pos : Nat) (heads : List String) :
    Prunes t (c.predictAll t pos heads).1 (c'.predictAll t.blind pos heads).1
      ∧ Thins t (c'.predictAll t.blind pos heads).1 (c.predictAll t pos heads).2
        (c'.predictAll t.blind pos heads).2 := by
  -- each head is predicted in the charts that the heads before it have left
  induction heads generalizing c c' with
  | nil => exact ⟨h, .nil⟩
  | cons head heads ih =>
    obtain ⟨hprunes, hthins⟩ := h.predict ht hg htidy head pos
    obtain ⟨hprunes', hthins'⟩ := ih hprunes
    obtain ⟨predicted, hchart⟩ := predictAll_eq t.blind (c'.predict t.blind head pos).1 pos heads
    refine ⟨hprunes', Thins.append ?_ hthins'⟩
    apply hthins.grows
    simp only [Chart.predictAll]
    rw [hchart]
    exact .of_eq rfl rfl

/-- Taking up paired states does the same in both charts: both are finished, both wait for a head,
or both wait for a word. -/
theorem Prunes.takeUp (h : Prunes t c c') (ht : t.lookahead = true) (hg : t.grammar.Coherent)
    (htidy : t.grammar.Tidy) (hc : c.WellFormed t) (hc' : c'.WellFormed t.blind) (pos : Nat)
    {i j : Nat} (hij : Pairs (c'.kept t) i j) :
    Prunes t (Run.takeUp t c pos i).1 (Run.takeUp t.blind c' pos j).1
      ∧ Thins t (Run.takeUp t.blind c' pos j).1 (Run.takeUp t c pos i).2
        (Run.takeUp t.blind c' pos j).2 := by
  obtain ⟨s, s', hs, hs', halike, _⟩ := h.exists_states hij
  have hnext : t.blind.nextStep? s'.item = t.nextStep? s'.item := rfl
  -- the items are equal, so the tasks ask the same step of both
  simp only [Run.takeUp, hs, hs', halike.item, hnext]
  cases t.nextStep? s'.item with
  | none => exact ⟨h, .of_forall₂ (h.completions hc hc' hij)⟩
  | some step =>
    simp only
    split
    · exact h.predict ht hg htidy step.symbol pos
    · exact ⟨h, .nil⟩

/-- Nothing follows from a ruled-out start when it is taken up. -/
theorem takeUp_of_not_keeps {j : Nat} {s : ChartState} (hs : c.states[j]? = some s)
    (hruled : t.isRuledOut s.item = true) (pos : Nat) : Run.takeUp t.blind c pos j = (c, []) := by
  obtain ⟨_, step, hstep, hterminal, _⟩ := Task.isRuledOut_iff.1 hruled
  have hnext : t.blind.nextStep? s.item = some step := hstep
  simp [Run.takeUp, hs, hnext, hterminal]

end Steps

end Chart

end Utterance
