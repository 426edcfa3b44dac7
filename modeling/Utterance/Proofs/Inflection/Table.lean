import Mathlib.Data.List.Nodup
import Utterance.Inflection
import Utterance.Proofs.Inflection.Irregular

/-!
# Tables of irregular forms

However a table was filled, it has one form at most for a word and a tag, and a class has a base word if
there is a form of it and as long as there was room. So the form of a word can be looked up in any order
of the forms, and its base word too if no other word has the same form.
-/

namespace Utterance

theorem WordClass.mem_tags_iff {c : WordClass} {t : Tag} : t ∈ c.tags ↔ t.wordClass? = some c := by
  cases c <;> cases t <;> simp [tags, Tag.wordClass?]

/-- Where at most one member satisfies a condition, a search finds it wherever it stands. -/
theorem List.find?_eq_some_iff_of_unique {α : Type} {xs : List α} {p : α → Bool}
    (hunique : ∀ x ∈ xs, ∀ y ∈ xs, p x = true → p y = true → x = y) {x : α} :
    xs.find? p = some x ↔ x ∈ xs ∧ p x = true := by
  constructor
  · exact fun h => ⟨List.mem_of_find?_eq_some h, List.find?_some h⟩
  · rintro ⟨hmem, hx⟩
    cases hfind : xs.find? p with
    | none => exact absurd hx (List.find?_eq_none.1 hfind x hmem)
    | some y =>
      rw [hunique y (List.mem_of_find?_eq_some hfind) x hmem (List.find?_some hfind) hx]

namespace Irregulars

variable {m n : Irregulars} {c : WordClass} {form : IrregularForm} {capacity : Int}

/-! ## Tables that are reached -/

/-- The tables with room for so many base words that can be come to. -/
inductive Reached (capacity : Int) : Irregulars → Prop where
  | fresh : Reached capacity { capacity }
  | add {m : Irregulars} (h : Reached capacity m) (base : String) (tags : Tags) (surface : String) :
      Reached capacity (m.add base tags surface).state
  | addLine {m : Irregulars} (h : Reached capacity m) (line whence : String) :
      Reached capacity (m.addLine line whence).1
  | load {m : Irregulars} (h : Reached capacity m) (files : Files) (route : Route) (append : Bool) :
      Reached capacity (m.load files route append).state
  | clear {m : Irregulars} (h : Reached capacity m) : Reached capacity m.clear

/-- What holds of every table that is reached. -/
structure Consistent (capacity : Int) (m : Irregulars) : Prop where
  capacity_eq : m.capacity = capacity
  /-- A word has one form for a tag. -/
  keys : (m.forms.map (·.key)).Nodup
  classed : ∀ f ∈ m.forms, ∃ c, f.tag.wordClass? = some c
  bases : ∀ c, (m.bases c).Nodup
  /-- The base words of a class are those that have a form. -/
  mem_bases : ∀ c base,
    base ∈ m.bases c ↔ ∃ f ∈ m.forms, f.base = base ∧ f.tag.wordClass? = some c
  room : ∀ c, m.bases c ≠ [] → (m.bases c).length ≤ capacity

/-- A new table is consistent: there is nothing in it. -/
theorem consistent_fresh (capacity : Int) : Consistent capacity { capacity } where
  capacity_eq := rfl
  keys := List.nodup_nil
  classed f hf := absurd hf List.not_mem_nil
  bases c := by cases c <;> exact List.nodup_nil
  mem_bases c base := by cases c <;> simp [Irregulars.bases]
  room c hne := by cases c <;> exact absurd rfl hne

/-! ## Entering a form -/

/-- A form that takes no place of another is put at the end. -/
theorem putForm_of_not_mem {forms : List IrregularForm} (h : form.key ∉ forms.map (·.key)) :
    putForm form forms = forms ++ [form] := by
  induction forms with
  | nil => rfl
  | cons f forms ih =>
    rw [List.map_cons, List.mem_cons, not_or] at h
    rw [putForm_cons, if_neg (Ne.symm h.1), ih h.2]
    rfl

/-- A form that takes the place of another keeps all places. -/
theorem keys_putForm_of_mem {forms : List IrregularForm} (h : form.key ∈ forms.map (·.key)) :
    (putForm form forms).map (·.key) = forms.map (·.key) := by
  induction forms with
  | nil => exact absurd h List.not_mem_nil
  | cons f forms ih =>
    rw [putForm_cons]
    split
    · rename_i hkey
      rw [List.map_cons, List.map_cons, hkey]
    -- the key is not here, so it is further down
    · rename_i hkey
      rw [List.map_cons, List.map_cons, ih ((List.mem_cons.1 h).resolve_left (Ne.symm hkey))]

/-- Putting a form into a list keeps its keys distinct, as a form with the same key is replaced. -/
theorem nodup_keys_putForm {forms : List IrregularForm} (h : (forms.map (·.key)).Nodup) :
    ((putForm form forms).map (·.key)).Nodup := by
  by_cases hmem : form.key ∈ forms.map (·.key)
  · rw [keys_putForm_of_mem hmem]
    exact h
  -- a form with a new key is put at the end
  · rw [putForm_of_not_mem hmem, List.map_append]
    apply List.nodup_append.2
    refine ⟨h, by simp, fun key hkey other hother => ?_⟩
    rintro rfl
    rw [List.map_singleton, List.mem_singleton] at hother
    exact hmem (hother ▸ hkey)

/-- The keys after that are those from before and the new one. -/
theorem mem_keys_putForm {forms : List IrregularForm} {key : Tag × String} :
    key ∈ (putForm form forms).map (·.key) ↔ key = form.key ∨ key ∈ forms.map (·.key) := by
  by_cases hmem : form.key ∈ forms.map (·.key)
  · rw [keys_putForm_of_mem hmem]
    exact ⟨.inr, fun h => h.elim (fun heq => heq ▸ hmem) id⟩
  · rw [putForm_of_not_mem hmem, List.map_append, List.mem_append, List.map_singleton,
      List.mem_singleton, or_comm]

/-- Which words have a form of a class depends on the places of the forms only. -/
theorem exists_form_iff {forms : List IrregularForm} {base : String} :
    (∃ f ∈ forms, f.base = base ∧ f.tag.wordClass? = some c)
      ↔ ∃ t, t.wordClass? = some c ∧ (t, base) ∈ forms.map (·.key) := by
  simp only [List.mem_map, IrregularForm.key, Prod.mk.injEq]
  constructor
  · rintro ⟨f, hf, hbase, hclass⟩
    exact ⟨f.tag, hclass, f, hf, rfl, hbase⟩
  · rintro ⟨_, hclass, f, hf, rfl, hbase⟩
    exact ⟨f, hf, hbase, hclass⟩

/-- Which base words have a form of a class after a form was put: the new one, and those that had
one. A form that was replaced had the same base word and tag, so none is lost. -/
theorem exists_form_putForm {forms : List IrregularForm} {base : String} :
    (∃ f ∈ putForm form forms, f.base = base ∧ f.tag.wordClass? = some c)
      ↔ (form.base = base ∧ form.tag.wordClass? = some c)
        ∨ ∃ f ∈ forms, f.base = base ∧ f.tag.wordClass? = some c := by
  rw [exists_form_iff, exists_form_iff]
  simp only [mem_keys_putForm]
  constructor
  · rintro ⟨t, hclass, heq | hmem⟩
    · obtain ⟨rfl, rfl⟩ := Prod.mk.inj heq
      exact .inl ⟨rfl, hclass⟩
    · exact .inr ⟨t, hclass, hmem⟩
  · rintro (⟨rfl, hclass⟩ | ⟨t, hclass, hmem⟩)
    · exact ⟨form.tag, hclass, .inl rfl⟩
    · exact ⟨t, hclass, .inr hmem⟩

/-- Every form still has a tag of some class, as only forms with such a tag are put. -/
theorem classed_putForm {forms : List IrregularForm} (hclass : form.tag.wordClass? = some c)
    (h : ∀ f ∈ forms, ∃ c, f.tag.wordClass? = some c) :
    ∀ f ∈ putForm form forms, ∃ c, f.tag.wordClass? = some c := by
  intro f hf
  have hkey : f.key ∈ (putForm form forms).map (·.key) := List.mem_map_of_mem hf
  rcases mem_keys_putForm.1 hkey with heq | hmem
  · exact ⟨c, by rw [(Prod.mk.inj heq).1, hclass]⟩
  · obtain ⟨f', hf', heq⟩ := List.mem_map.1 hmem
    rw [← (Prod.mk.inj heq).1]
    exact h f' hf'

/-- Entering a form keeps the base words of every class distinct and within their room. A new base
word is listed only if there is room for it and it is not listed yet; a form is entered only if its
base word is. -/
theorem Consistent.enter (h : Consistent capacity m) (hclass : form.tag.wordClass? = some c) :
    Consistent capacity (m.enter c form).1 := by
  rcases enter_cases m c form with ⟨hsame, _⟩ | ⟨hforms, hcapacity, hbases⟩
  · rw [hsame]
    exact h
  -- a form belongs to its own class only, where its base word is there afterwards
  · have hmem : ∀ c' base, base ∈ (m.enter c form).1.bases c'
        ↔ (form.base = base ∧ form.tag.wordClass? = some c') ∨ base ∈ m.bases c' := by
      intro c' base
      rw [hclass, Option.some.injEq]
      rcases hbases with ⟨hknown, hbases⟩ | ⟨_, hbases⟩
      · rw [hbases, or_iff_right_of_imp]
        rintro ⟨rfl, rfl⟩
        exact hknown
      · rw [hbases]
        split
        · rename_i heq
          simp [heq, or_comm, eq_comm]
        · rename_i hne
          simp [Ne.symm hne]
    refine ⟨hcapacity.trans h.capacity_eq, ?_, ?_, fun c' => ?_, fun c' base => ?_, fun c' hne => ?_⟩
    · rw [hforms]
      exact nodup_keys_putForm h.keys
    · rw [hforms]
      exact classed_putForm hclass h.classed
    · rcases hbases with ⟨_, hbases⟩ | ⟨⟨hnew, _⟩, hbases⟩
      · rw [hbases]
        exact h.bases c'
      · rw [hbases]
        split
        · exact (List.nodup_cons.2 ⟨hnew, h.bases c⟩).perm (List.perm_append_singleton _ _).symm
        · exact h.bases c'
    · rw [hmem, hforms, exists_form_putForm, h.mem_bases]
    -- a class gets one word more only where there is room for it
    · rcases hbases with ⟨_, hbases⟩ | ⟨⟨_, hroom⟩, hbases⟩
      · rw [hbases] at hne ⊢
        exact h.room c' hne
      · rw [hbases] at hne ⊢
        split at hne
        · rename_i heq
          rw [h.capacity_eq] at hroom
          rw [if_pos heq, List.length_append, List.length_singleton]
          omega
        · rename_i hother
          rw [if_neg hother]
          exact h.room c' hne

/-! ## Lines, files and single forms -/

/-- Adding a form by hand keeps a table consistent, whether it is accepted or not. -/
theorem Consistent.add (h : Consistent capacity m) (base : String) (tags : Tags) (surface : String) :
    Consistent capacity (m.add base tags surface).state := by
  unfold Irregulars.add
  cases tags.onlyInflection? with
  | none => exact h
  | some t =>
    simp only
    cases hclass : t.wordClass? with
    | none => exact h
    | some c => exact h.enter hclass

/-- Adding a line keeps a table consistent. A line that cannot be read adds nothing. -/
theorem Consistent.addLine (h : Consistent capacity m) (line whence : String) :
    Consistent capacity (m.addLine line whence).1 := by
  unfold Irregulars.addLine
  cases parseLine? line with
  | none => exact h
  | some form =>
    simp only
    cases hclass : form.tag.wordClass? with
    | none => exact h
    | some c => exact h.enter hclass

/-- A line of a file does nothing to the table, or is entered. -/
theorem Scan.table_take (path : String) (s : Scan) (number : Nat) (raw : String) :
    (s.take path number raw).table = s.table
      ∨ ∃ line whence, (s.take path number raw).table = (s.table.addLine line whence).1 := by
  unfold Scan.take
  simp only
  cases Line.startsWith (Line.clean raw) "=" with
  | true => exact .inl (by rw [if_pos rfl])
  | false =>
    rw [if_neg (by decide)]
    cases s.inside && !(Line.clean raw).isEmpty with
    | true =>
      rw [if_pos rfl]
      refine .inr ⟨Line.clean raw, path ++ ":" ++ toString number, ?_⟩
      -- what adding the line does to the table does not matter here
      generalize s.table.addLine _ _ = added
      rfl
    | false => exact .inl (by rw [if_neg (by decide)])

/-- The lines of a file, one after the other, keep a table consistent. -/
theorem Consistent.takeAll {path : String} {s : Scan} {number : Nat} {lines : List String}
    (h : Consistent capacity s.table) :
    Consistent capacity (Scan.takeAll path s number lines).table := by
  induction lines generalizing s number with
  | nil => exact h
  | cons raw lines ih =>
    -- one line leaves the table or enters a form, and both keep it consistent
    have htake : Consistent capacity (s.take path number raw).table := by
      rcases Scan.table_take path s number raw with hsame | ⟨line, whence, hline⟩
      · rw [hsame]
        exact h
      · rw [hline]
        exact h.addLine line whence
    rw [Scan.takeAll]
    exact ih htake

theorem Consistent.clear (h : Consistent capacity m) : Consistent capacity m.clear := by
  rw [Irregulars.clear, h.capacity_eq]
  exact consistent_fresh capacity

/-- Loading a file is clearing, if it is to replace, and taking lines. Where the file cannot be
read, or cannot be decoded, the table has been cleared all the same. -/
theorem Consistent.load (h : Consistent capacity m) (files : Files) (route : Route) (append : Bool) :
    Consistent capacity (m.load files route append).state := by
  have hstart : Consistent capacity (if append then m else m.clear) := by
    cases append
    · exact h.clear
    · exact h
  unfold Irregulars.load
  simp only
  cases files.read route with
  | error e => cases e <;> exact hstart
  | ok content =>
    simp only
    cases content.lines with
    | error e => exact hstart
    | ok lines => exact Consistent.takeAll hstart

/-- Every table that is reached is consistent. -/
theorem Reached.consistent (h : Reached capacity m) : Consistent capacity m := by
  induction h with
  | fresh => exact consistent_fresh capacity
  | add _ base tags surface ih => exact ih.add base tags surface
  | addLine _ line whence ih => exact ih.addLine line whence
  | load _ files route append ih => exact ih.load files route append
  | clear _ ih => exact ih.clear

/-! ## Looking up -/

/-- No two base words have the same form for a tag. -/
def Distinct (m : Irregulars) : Prop :=
  ∀ f ∈ m.forms, ∀ g ∈ m.forms, f.tag = g.tag → f.surface = g.surface → f.base = g.base

/-- Since keys are distinct, a search for a surface finds the only form that has the base and the
tag. -/
theorem surface?_eq_some_iff (h : (m.forms.map (·.key)).Nodup) {base surface : String} {t : Tag} :
    m.surface? base t = some surface ↔ ⟨t, base, surface⟩ ∈ m.forms := by
  have hunique : ∀ f ∈ m.forms, ∀ g ∈ m.forms, (f.tag = t && f.base == base) = true →
      (g.tag = t && g.base == base) = true → f = g := by
    intro f hf g hg hfkey hgkey
    simp only [Bool.and_eq_true, decide_eq_true_eq, beq_iff_eq] at hfkey hgkey
    apply List.inj_on_of_nodup_map h hf hg
    simp [IrregularForm.key, hfkey, hgkey]
  simp only [surface?, Option.map_eq_some_iff, List.find?_eq_some_iff_of_unique hunique,
    Bool.and_eq_true, decide_eq_true_eq, beq_iff_eq]
  constructor
  · rintro ⟨⟨_, _, _⟩, ⟨hmem, rfl, rfl⟩, rfl⟩
    exact hmem
  · exact fun hmem => ⟨_, ⟨hmem, rfl, rfl⟩, rfl⟩

/-- In the other direction this takes more: no two base words share a surface under one tag. -/
theorem base?_eq_some_iff (hkeys : (m.forms.map (·.key)).Nodup) (hdistinct : m.Distinct)
    {base surface : String} {t : Tag} :
    m.base? surface t = some base ↔ ⟨t, base, surface⟩ ∈ m.forms := by
  have hunique : ∀ f ∈ m.forms, ∀ g ∈ m.forms, (f.tag = t && f.surface == surface) = true →
      (g.tag = t && g.surface == surface) = true → f = g := by
    intro f hf g hg hfkey hgkey
    simp only [Bool.and_eq_true, decide_eq_true_eq, beq_iff_eq] at hfkey hgkey
    -- two forms with one surface and one tag have one base word, and so one key
    apply List.inj_on_of_nodup_map hkeys hf hg
    have hbase := hdistinct f hf g hg (hfkey.1.trans hgkey.1.symm) (hfkey.2.trans hgkey.2.symm)
    simp [IrregularForm.key, hfkey, hgkey, hbase]
  simp only [base?, Option.map_eq_some_iff, List.find?_eq_some_iff_of_unique hunique,
    Bool.and_eq_true, decide_eq_true_eq, beq_iff_eq]
  constructor
  · rintro ⟨⟨_, _, _⟩, ⟨hmem, rfl, rfl⟩, rfl⟩
    exact hmem
  · exact fun hmem => ⟨_, ⟨hmem, rfl, rfl⟩, rfl⟩

/-- The order of the forms does not matter to looking up a surface form. -/
theorem surface?_congr (hm : (m.forms.map (·.key)).Nodup) (hn : (n.forms.map (·.key)).Nodup)
    (hsame : ∀ f, f ∈ m.forms ↔ f ∈ n.forms) (base : String) (t : Tag) :
    m.surface? base t = n.surface? base t := by
  apply Option.ext
  intro surface
  rw [surface?_eq_some_iff hm, surface?_eq_some_iff hn, hsame]

/-- The order of the forms does not matter to looking up a base word. -/
theorem base?_congr (hm : (m.forms.map (·.key)).Nodup) (hn : (n.forms.map (·.key)).Nodup)
    (hdistinct : n.Distinct) (hsame : ∀ f, f ∈ m.forms ↔ f ∈ n.forms) (surface : String) (t : Tag) :
    m.base? surface t = n.base? surface t := by
  have hapart : m.Distinct := fun f hf g hg => hdistinct f ((hsame f).1 hf) g ((hsame g).1 hg)
  apply Option.ext
  intro base
  rw [base?_eq_some_iff hm hapart, base?_eq_some_iff hn hdistinct, hsame]

/-- Inflection sees a table through the lookups only. -/
theorem surface_congr (h : ∀ base t, m.surface? base t = n.surface? base t) (base : String)
    (tags : Tags) : m.surface base tags = n.surface base tags := by
  have hsame : m.surface? = n.surface? := funext fun base => funext fun t => h base t
  simp only [surface, form, possessiveForm, phraseForm, wordForm, irregularForm, hsame]

/-- Bases depend on nothing but the searches in the table. -/
theorem base_congr (h : ∀ surface t, m.base? surface t = n.base? surface t) (word : String)
    (tags : Tags) : m.base word tags = n.base word tags := by
  have hsame : m.base? = n.base? := funext fun word => funext fun t => h word t
  simp only [base, baseForm, possessiveBase, phraseBase, wordBase, irregularBase, hsame]

end Irregulars

end Utterance
