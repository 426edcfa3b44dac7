import Utterance.Proofs.Parse

/-!
# The selected derivation

What a parse with candidates leaves behind, in full: the words as they were given, a selected candidate
whose tree derives all of them, that tree spelled out, and the cursor at its root.
-/

namespace Utterance.Analysis

/-- An analysis before a candidate is selected. -/
def unselected (t : Task) (words : List String) (confidences : List (Option Int)) : Analysis :=
  { words, confidences, chart := t.chart, candidates := covering t t.chart }

/-- What a parse comes to once the confidences are read and there is something to chart: its chart is
that of the task, and if there are candidates the best of them is selected. This holds with looking
ahead and without; the two differ in the task alone. -/
theorem parseWith_of_read (lookahead : Bool) {g : Grammar} {sentence : Sentence} {conf : Confidence}
    {read : List (Option Int) × Journal} (hread : conf.read sentence.toWords.length = .ok read)
    (hsome : (sentence.toWords.isEmpty || g.productions.isEmpty) = false) :
    let a := unselected (Task.ofWords g sentence.toWords lookahead) sentence.toWords read.1
    (parseWith lookahead g sentence conf).state
        = (if a.candidates.isEmpty then a else (a.select g (bestOf a.scores)).state)
      ∧ (parseWith lookahead g sentence conf).result
        = if a.candidates.isEmpty then .ok 0
          else (a.select g (bestOf a.scores)).result.map fun _ => a.candidates.length := by
  intro a
  simp only [parseWith, hread, hsome, Bool.false_eq_true, if_false]
  show _ = (if (covering _ _).isEmpty = true then _ else _)
    ∧ _ = if (covering _ _).isEmpty = true then _ else _
  split <;> exact ⟨rfl, rfl⟩

/-- A state that covers a sentence stands for a derivation of all its words. -/
theorem mem_derivations_of_covers {g : Grammar} (hg : g.Coherent) {words : List String} {id : Nat}
    {s : ChartState} (hs : (Task.ofWords g words).chart.states[id]? = some s)
    (hcovers : covers (Task.ofWords g words) s = true) :
    (Task.ofWords g words).chart.tree s ∈ g.derivations words s.item.rule := by
  have hderivation := derivation_of_covers hg hs hcovers
  simp only [covers, Bool.and_eq_true, beq_iff_eq, length_ofWords] at hcovers
  obtain ⟨⟨⟨hstart, hstop⟩, _⟩, _⟩ := hcovers
  rw [Chart.tree, hstart, hstop] at hderivation ⊢
  exact ⟨_, rfl, hderivation⟩

/-- What a parse with candidates leaves behind. -/
structure Selected (g : Grammar) (words : List String) (a : Analysis) (s : ChartState) : Prop where
  words_eq : a.words = words
  candidate : a.candidate? none = some s
  derives : a.chart.tree s ∈ g.derivations words s.item.rule
  spelling : a.spelling = ((a.chart.tree s).spell g words.toArray words.toArray).1.toList
  cursor : a.cursor = .root (a.chart.tree s)

/-- Selecting the first best candidate leaves behind its state, its derivation, that derivation's
spelling, and a cursor at the root. -/
theorem exists_selected_select {g : Grammar} (hg : g.Coherent) {words : List String} {a : Analysis}
    (hwords : a.words = words) (hchart : a.chart = (Task.ofWords g words).chart)
    (hcandidates : a.candidates = covering (Task.ofWords g words) a.chart)
    (hne : a.candidates ≠ []) :
    ∃ s, Selected g words (a.select g (bestOf a.scores)).state s := by
  have hcovers : ∀ id ∈ a.candidates, ∃ s, a.chart.states[id]? = some s
      ∧ covers (Task.ofWords g words) s = true := by
    intro id hid
    rw [hcandidates] at hid
    exact mem_covering.1 hid
  obtain ⟨id, s, hid, hs⟩ := exists_best
    (fun id hid => (hcovers id hid).imp fun s hs => hs.1) hne
  obtain ⟨s', hs', hcover⟩ := hcovers id (List.mem_of_getElem? hid)
  have hsame : s = s' := Option.some.inj (hs.symm.trans hs')
  subst hsame
  have hcandidate : a.candidate? (some (bestOf a.scores : Int)) = some s := by
    rw [candidate?_natCast, hid, Option.bind_some]
    exact hs
  rw [hchart] at hs
  have hderives := mem_derivations_of_covers hg hs hcover
  have hfault := (derivation_of_covers hg hs hcover).spell_snd words.toArray words.toArray
  rw [← hchart] at hderives hfault
  refine ⟨s, ?_⟩
  rw [select_of_candidate? hcandidate, hwords]
  simp only [hfault, Option.isNone_none, if_true]
  refine ⟨rfl, ?_, hderives, rfl, rfl⟩
  rw [candidate?_natCast] at hcandidate
  exact hcandidate

/-- A parse with candidates has selected one: a run that charted nothing has none, and one that
found some has selected the first best. -/
theorem exists_selected {g : Grammar} (hg : g.Coherent) {sentence : Sentence} {conf : Confidence}
    (hne : (parse g sentence conf).state.candidates ≠ []) :
    ∃ s, Selected g sentence.toWords (parse g sentence conf).state s := by
  cases hread : conf.read sentence.toWords.length with
  | error e => exact absurd (uncharted_parse (.inl ⟨e, hread⟩)).candidates hne
  | ok read =>
    cases hsome : sentence.toWords.isEmpty || g.productions.isEmpty with
    | true =>
      simp only [Bool.or_eq_true, List.isEmpty_iff, Array.isEmpty_iff] at hsome
      exact absurd (uncharted_parse (.inr hsome)).candidates hne
    | false =>
      obtain ⟨hstate, _⟩ := parseWith_of_read true hread hsome
      rw [parse, hstate] at hne ⊢
      split at hne
      · rename_i hnone
        exact absurd (List.isEmpty_iff.1 hnone) hne
      · rename_i hfilled
        rw [if_neg hfilled]
        exact exists_selected_select hg rfl rfl rfl (by simpa using hfilled)

/-- The association list of an analysis is collected from the root of the selected tree. -/
theorem assocList_of_candidate? {g : Grammar} {a : Analysis} {s : ChartState}
    (h : a.candidate? none = some s) (closing : Bool) :
    a.assocList g closing
      = { a with cursor := .root (a.chart.tree s) }.afterWalk
        (AssocList.build g a.spelling closing (.root (a.chart.tree s))) := by
  simp only [assocList, top, h]

/-- What a walk collects does not depend on the analysis that it is recorded in. -/
theorem result_afterWalk {α : Type} (a a' : Analysis) (walk : Except Cursor.Stop α) :
    (a.afterWalk walk).result = (a'.afterWalk walk).result := by
  unfold afterWalk
  split <;> rfl

end Utterance.Analysis
