import Mathlib.Data.List.Infix
import Utterance.Inflection.Irregular

/-!
# Irregular forms that are entered again

Entering lines a second time changes nothing. The table only grows, and a class that is full stays as it
is; so a form that was turned away is turned away again, and the base word of a form that was entered is
there. The forms keep their places. While the second run goes over the lines each form of the table is
either what the first run left in the end or what the first run had at this line, and at the last line
these are the same.
-/

namespace Utterance

/-- What at most one form of a table is for. -/
def IrregularForm.key (f : IrregularForm) : Tag × String := (f.tag, f.base)

namespace Irregulars

variable {m n k : Irregulars} {c : WordClass} {form : IrregularForm}

/-! ## Forms and their places -/

theorem putForm_cons (new f : IrregularForm) (rest : List IrregularForm) :
    putForm new (f :: rest) = if f.key = new.key then new :: rest else f :: putForm new rest := by
  simp [putForm, IrregularForm.key]

/-- Forms keep their places, and a new one is at the end. -/
theorem isPrefix_keys_putForm (new : IrregularForm) (forms : List IrregularForm) :
    forms.map (·.key) <+: (putForm new forms).map (·.key) := by
  induction forms with
  | nil => exact List.nil_prefix
  | cons f forms ih =>
    rw [putForm_cons]
    split
    · rename_i hkey
      rw [List.map_cons, List.map_cons, hkey]
    · exact List.prefix_cons_inj _ |>.2 ih

/-- Forms of a second run: at every place that the first run has come to, what it left there in the end
or what it has there now, and at the others what it left there in the end. -/
inductive Lags : List IrregularForm → List IrregularForm → List IrregularForm → Prop where
  | rest (forms : List IrregularForm) : Lags [] forms forms
  | cons {now again last : IrregularForm} {first second final : List IrregularForm}
      (now_key : now.key = last.key) (again_key : again.key = last.key)
      (either : again = last ∨ again = now) (later : Lags first second final) :
      Lags (now :: first) (again :: second) (last :: final)

/-- At the start of the second run all places have what the first left there. -/
theorem lags_of_isPrefix {first final : List IrregularForm}
    (h : first.map (·.key) <+: final.map (·.key)) : Lags first final final := by
  induction first generalizing final with
  | nil => exact .rest final
  | cons now first ih =>
    cases final with
    | nil => exact absurd h.length_le (by simp)
    | cons last final =>
      rw [List.map_cons, List.map_cons, List.cons_prefix_cons] at h
      exact .cons h.1 rfl (.inl rfl) (ih h.2)

/-- In the end both runs have the same. -/
theorem Lags.eq {first second final : List IrregularForm} (h : Lags first second final)
    (hend : first = final) : second = final := by
  induction h with
  | rest forms => rfl
  | cons _ _ either _ ih =>
    obtain ⟨rfl, rfl⟩ := List.cons.inj hend
    rw [either.elim id id, ih rfl]

/-- A form that both runs enter is at the same place. The induction is along the two tables and the
one that they are to become; up to the place of the form nothing changes. -/
theorem Lags.putForm {first second final : List IrregularForm} (h : Lags first second final)
    (hlater : (putForm form first).map (·.key) <+: final.map (·.key)) :
    Lags (putForm form first) (putForm form second) final := by
  induction h with
  | rest forms =>
    cases forms with
    | nil => exact absurd hlater.length_le (by simp [Irregulars.putForm])
    | cons last forms =>
      have hkey : form.key = last.key := (List.cons_prefix_cons.1 hlater).1
      rw [putForm_cons, if_pos hkey.symm]
      exact .cons hkey hkey (.inr rfl) (.rest forms)
  | @cons now again last _ _ _ now_key again_key either later ih =>
    rw [putForm_cons, now_key] at hlater
    rw [putForm_cons, putForm_cons, now_key, again_key]
    -- a form that is entered here again stands for all that was lagging behind
    by_cases hkey : last.key = form.key
    · rw [if_pos hkey, if_pos hkey]
      exact .cons hkey.symm hkey.symm (.inr rfl) later
    · rw [if_neg hkey] at hlater
      rw [if_neg hkey, if_neg hkey]
      exact .cons now_key again_key either (ih (List.cons_prefix_cons.1 hlater).2)

/-! ## Growing tables -/

/-- A table after some lines: its base words and the places of its forms come after those that were
there, and a class without room has no new ones. -/
structure Grows (m n : Irregulars) : Prop where
  capacity : n.capacity = m.capacity
  bases : ∀ c, m.bases c <+: n.bases c
  full : ∀ c, m.capacity ≤ (m.bases c).length → n.bases c = m.bases c
  keys : m.forms.map (·.key) <+: n.forms.map (·.key)

theorem Grows.refl (m : Irregulars) : Grows m m :=
  ⟨rfl, fun _ => List.prefix_rfl, fun _ _ => rfl, List.prefix_rfl⟩

/-- Growth adds up. -/
theorem Grows.trans (h : Grows m n) (h' : Grows n k) : Grows m k where
  capacity := h'.capacity.trans h.capacity
  bases c := (h.bases c).trans (h'.bases c)
  full c hfull := by
    have hsame := h.full c hfull
    rw [h'.full c (by rw [h.capacity, hsame]; exact hfull), hsame]
  keys := h.keys.trans h'.keys

theorem bases_addBase (m : Irregulars) (c : WordClass) (base : String) (c' : WordClass) :
    (m.addBase c base).bases c' = if c' = c then m.bases c ++ [base] else m.bases c' := by
  cases c <;> cases c' <;> rfl

/-- A form is turned away if its base word is new and there is no room for it. Otherwise it is entered,
and its base word is there. -/
theorem enter_cases (m : Irregulars) (c : WordClass) (form : IrregularForm) :
    ((m.enter c form).1 = m ∧ form.base ∉ m.bases c ∧ m.capacity ≤ (m.bases c).length)
      ∨ (m.enter c form).1.forms = putForm form m.forms
        ∧ (m.enter c form).1.capacity = m.capacity
        ∧ ((form.base ∈ m.bases c ∧ ∀ c', (m.enter c form).1.bases c' = m.bases c')
          ∨ (form.base ∉ m.bases c ∧ ¬ m.capacity ≤ (m.bases c).length)
            ∧ ∀ c', (m.enter c form).1.bases c'
              = if c' = c then m.bases c ++ [form.base] else m.bases c') := by
  unfold enter
  simp only
  split
  · rename_i hfull
    simp only [Bool.and_eq_true, Bool.not_eq_true', List.contains_eq_mem, decide_eq_false_iff_not,
      decide_eq_true_eq] at hfull
    exact .inl ⟨rfl, hfull.1, hfull.2⟩
  · rename_i hroom
    right
    simp only [Bool.and_eq_true, Bool.not_eq_true', List.contains_eq_mem, decide_eq_false_iff_not,
      decide_eq_true_eq, not_and] at hroom
    -- a base word that is known takes no room of its own
    by_cases hknown : form.base ∈ m.bases c
    · rw [if_pos (by simpa using hknown)]
      exact ⟨rfl, rfl, .inl ⟨hknown, fun c' => by cases c' <;> rfl⟩⟩
    · rw [if_neg (by simpa using hknown)]
      refine ⟨by cases c <;> rfl, by cases c <;> rfl, .inr ⟨⟨hknown, hroom hknown⟩, fun c' => ?_⟩⟩
      rw [← bases_addBase]
      cases c' <;> rfl

/-- Entering a form grows the table, whether the form is new, replaces another, or finds no room. -/
theorem grows_enter (m : Irregulars) (c : WordClass) (form : IrregularForm) :
    Grows m (m.enter c form).1 := by
  rcases enter_cases m c form with ⟨hsame, _⟩ | ⟨hforms, hcapacity, hbases⟩
  · rw [hsame]
    exact .refl m
  · have hkeys : m.forms.map (·.key) <+: (m.enter c form).1.forms.map (·.key) := by
      rw [hforms]
      exact isPrefix_keys_putForm form m.forms
    -- only a new base word makes a list longer, and none that is full
    rcases hbases with ⟨_, hbases⟩ | ⟨hroom, hbases⟩
    · exact ⟨hcapacity, fun c' => by rw [hbases], fun c' _ => hbases c', hkeys⟩
    · refine ⟨hcapacity, fun c' => ?_, fun c' hfull => ?_, hkeys⟩
      · rw [hbases]
        split
        · rename_i heq
          rw [heq]
          exact List.prefix_append _ _
        · exact List.prefix_rfl
      · rw [hbases, if_neg]
        rintro rfl
        exact hroom.2 hfull

/-! ## The second run -/

/-- A second run that has come to the line that the first one was at. -/
structure Trails (first second final : Irregulars) : Prop where
  capacity : second.capacity = final.capacity
  bases : ∀ c, second.bases c = final.bases c
  forms : Lags first.forms second.forms final.forms

theorem Grows.trails (h : Grows m n) : Trails m n n := ⟨rfl, fun _ => rfl, lags_of_isPrefix h.keys⟩

/-- When both runs have taken all lines, the tables are the same. -/
theorem Trails.eq (h : Trails m n m) : n = m := by
  have hnouns : n.nouns = m.nouns := h.bases .noun
  have hadjectives : n.adjectives = m.adjectives := h.bases .adjective
  have hverbs : n.verbs = m.verbs := h.bases .verb
  have hforms := h.forms.eq rfl
  have hcapacity := h.capacity
  cases n
  cases m
  simp_all only

/-- What is turned away by one run is turned away by the other, and what is entered is entered by
both. -/
theorem Trails.enter (h : Trails m n k) (hgrows : Grows (m.enter c form).1 k) :
    Trails (m.enter c form).1 (n.enter c form).1 k := by
  rcases enter_cases m c form with ⟨hsame, hnew, hfull⟩ | ⟨hforms, _, hbases⟩
  · rw [hsame] at hgrows ⊢
    -- the class was full before, so it still is, and the word is still not there
    have hbases : n.bases c = m.bases c := by rw [h.bases, hgrows.full c hfull]
    have hcapacity : n.capacity = m.capacity := by rw [h.capacity, hgrows.capacity]
    have hagain : (n.enter c form).1 = n := by
      rw [Irregulars.enter, hbases, hcapacity, if_pos (by simp [hnew, hfull])]
    rw [hagain]
    exact h
  -- what the first table has taken up by now is among what it has in the end, and that the second
  -- has
  · have hknown : form.base ∈ n.bases c := by
      rw [h.bases]
      apply (hgrows.bases c).subset
      rcases hbases with ⟨hmem, hbases⟩ | ⟨_, hbases⟩
      · rw [hbases]
        exact hmem
      · rw [hbases, if_pos rfl]
        exact List.mem_append_right _ (List.mem_singleton.2 rfl)
    have hagain : (n.enter c form).1 = { n with forms := putForm form n.forms } := by
      simp [Irregulars.enter, hknown]
    have hkeys := hgrows.keys
    rw [hforms] at hkeys
    refine ⟨by rw [hagain, h.capacity], fun c' => ?_, ?_⟩
    · rw [hagain, ← h.bases]
      cases c' <;> rfl
    · rw [hforms, hagain]
      exact h.forms.putForm hkeys

/-! ## Lines -/

/-- The table after some lines. -/
def addLines (m : Irregulars) (lines : List String) : Irregulars :=
  lines.foldl (fun m line => (m.addLine line "").1) m

/-- Where a line stands shows in notes only. -/
theorem addLine_fst (m : Irregulars) (line whence : String) :
    (m.addLine line whence).1 = (m.addLine line "").1 := by
  unfold addLine
  split
  · rfl
  · split <;> rfl

/-- A line does nothing to any table, or enters the same form in every one. What it does is read off
the line alone, before the table is looked at. -/
theorem addLine_cases (line whence : String) :
    (∀ m : Irregulars, (m.addLine line whence).1 = m)
      ∨ ∃ c form, ∀ m : Irregulars, (m.addLine line whence).1 = (m.enter c form).1 := by
  unfold addLine
  cases parseLine? line with
  | none => exact .inl fun _ => rfl
  | some form =>
    simp only
    cases form.tag.wordClass? with
    | none => exact .inl fun _ => rfl
    | some c => exact .inr ⟨c, form, fun _ => rfl⟩

/-- A line grows the table, if it has a form. -/
theorem grows_addLine (m : Irregulars) (line whence : String) : Grows m (m.addLine line whence).1 := by
  rcases addLine_cases line whence with hnothing | ⟨c, form, henter⟩
  · rw [hnothing]
    exact .refl m
  · rw [henter]
    exact grows_enter m c form

/-- So do several. -/
theorem grows_addLines (m : Irregulars) (lines : List String) : Grows m (m.addLines lines) := by
  induction lines generalizing m with
  | nil => exact .refl m
  | cons line lines ih => exact (grows_addLine m line "").trans (ih _)

/-- The second run follows the first through a line: what the first has entered is there, so the
second puts the same into the same place, or finds no room where the first found none. -/
theorem Trails.addLine (h : Trails m n k) {line whence : String}
    (hgrows : Grows (m.addLine line whence).1 k) :
    Trails (m.addLine line whence).1 (n.addLine line whence).1 k := by
  rcases addLine_cases line whence with hnothing | ⟨c, form, henter⟩
  · rw [hnothing, hnothing]
    exact h
  · rw [henter] at hgrows ⊢
    rw [henter]
    exact h.enter hgrows

/-- By induction on the lines, a second run changes nothing in the end. -/
theorem Trails.addLines {lines : List String} (h : Trails m n (m.addLines lines)) :
    n.addLines lines = m.addLines lines := by
  induction lines generalizing m n with
  | nil => exact h.eq
  | cons line lines ih => exact ih (h.addLine (grows_addLines _ lines))

/-- The lines that were read last change nothing when they are read again. -/
theorem addLines_addLines (m : Irregulars) (lines : List String) :
    (m.addLines lines).addLines lines = m.addLines lines :=
  (grows_addLines m lines).trails.addLines

end Irregulars

end Utterance
