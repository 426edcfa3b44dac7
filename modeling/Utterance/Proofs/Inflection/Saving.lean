import Mathlib.Data.List.Nodup
import Utterance.Proofs.Inflection.Table
import Utterance.Proofs.Rule.Line
import Utterance.Proofs.Storage

/-!
# Irregular forms that are saved and loaded

A table is written class by class and word by word, whatever the order was in which its forms were
entered. A line gives its form back if its words can stand on a line, so the lines enter into a new table
just the forms of the old one. No form takes the place of another, and the base words come back in their
order; there is room for all of them, since there was before.
-/

namespace Utterance

namespace IrregularForm

variable {f : IrregularForm} {c : WordClass}

/-! ## Lines of forms -/

/-- A word that a line can hold. -/
structure Fits (word : String) : Prop where
  ne_empty : word ≠ ""
  trimmed : Text.trim word = word
  seamless : Line.Seamless word.toList

instance (word : String) : Decidable (Fits word) :=
  decidable_of_iff (word ≠ "" ∧ Text.trim word = word ∧ Line.Seamless word.toList)
    ⟨fun ⟨hne, htrimmed, hseamless⟩ => ⟨hne, htrimmed, hseamless⟩,
      fun h => ⟨h.ne_empty, h.trimmed, h.seamless⟩⟩

/-- A form that a line can hold. -/
structure Writable (f : IrregularForm) : Prop where
  base : Fits f.base
  surface : Fits f.surface
  unstarred : '*' ∉ f.base.toList
  unopened : f.base.toList.head? ≠ some '='

instance (f : IrregularForm) : Decidable (Writable f) :=
  decidable_of_iff (Fits f.base ∧ Fits f.surface ∧ '*' ∉ f.base.toList ∧ f.base.toList.head? ≠ some '=')
    ⟨fun ⟨hbase, hsurface, hstar, hequals⟩ => ⟨hbase, hsurface, hstar, hequals⟩,
      fun h => ⟨h.base, h.surface, h.unstarred, h.unopened⟩⟩

/-- What stands between the star and the equals sign. -/
def kind (t : Tag) : List Char := ' ' :: ((Text.padRight 5 t.name).toList ++ [' '])

/-- A line without its indent. -/
def core (f : IrregularForm) : List Char :=
  f.base.toList ++ [' '] ++ '*' :: (kind f.tag ++ '=' :: ' ' :: f.surface.toList)

/-- The line of a form. -/
def line (f : IrregularForm) : String := String.ofList ([' ', ' '] ++ f.core)

/-- The line of a form ends in a line end and has none before. -/
theorem formLine_eq (f : IrregularForm) :
    Irregulars.formLine f.base f.tag f.surface = f.line ++ "\n" := by
  apply String.toList_inj.1
  simp [Irregulars.formLine, line, core, kind]

/-- A word that a line can hold has no blanks around it. -/
theorem Fits.trimChars_eq {word : String} (h : Fits word) :
    Text.trimChars word.toList = word.toList := by
  have htrimmed := congrArg String.toList h.trimmed
  rwa [Text.trim, String.toList_ofList] at htrimmed

theorem Fits.toList_ne_nil {word : String} (h : Fits word) : word.toList ≠ [] :=
  fun hnil => h.ne_empty (by simpa using hnil)

theorem ofName?_trim_kind (t : Tag) :
    Tag.ofName? (String.ofList (Text.trimChars (kind t))) = some t := by
  cases t <;> decide +kernel

theorem kind_facts (t : Tag) :
    '=' ∉ kind t ∧ Text.trimChars (kind t) ≠ [] ∧ Line.Seamless (kind t) := by
  cases t <;> decide +kernel

/-- A line gives back the form that was written. It is cut at the star, which the base word does not
have, and then at the equals sign, which no name of a tag has; blanks around the three parts are
taken off. -/
theorem Writable.parseLine?_core (h : f.Writable) :
    Irregulars.parseLine? (String.ofList f.core) = some f := by
  obtain ⟨hequals, hkind, -⟩ := kind_facts f.tag
  have hstar : '*' ∉ f.base.toList ++ [' '] := by simp [h.unstarred]
  have hbase : Text.trimChars (f.base.toList ++ [' ']) = f.base.toList := by
    have htrim := @Text.trimChars_append [] f.base.toList [' '] (by simp) (by simp [Text.isBlank])
    exact htrim h.base.toList_ne_nil h.base.trimChars_eq
  have hsurface : Text.trimChars (' ' :: f.surface.toList) = f.surface.toList := by
    have htrim := @Text.trimChars_append [' '] f.surface.toList [] (by simp [Text.isBlank]) (by simp)
    rw [List.append_nil] at htrim
    exact htrim h.surface.toList_ne_nil h.surface.trimChars_eq
  rw [Irregulars.parseLine?, String.toList_ofList, core, Text.cutAt_append hstar]
  simp only [Text.cutAt_append hequals, hbase, hsurface, ofName?_trim_kind, Option.map_some,
    String.ofList_toList]
  rw [if_neg]
  simp [hkind, h.base.ne_empty, h.surface.ne_empty]

/-- What a line says about a form has no comment in it. -/
theorem Writable.seamless_core (h : f.Writable) : Line.Seamless f.core := by
  have hstart : Line.Seamless (f.base.toList ++ [' ']) :=
    h.base.seamless.append (by decide) (.inr (by decide))
  have hend : Line.Seamless (['=', ' '] ++ f.surface.toList) :=
    Line.Seamless.append (by decide) h.surface.seamless (.inl (by decide))
  have hrest : Line.Seamless (['*'] ++ (kind f.tag ++ (['=', ' '] ++ f.surface.toList))) :=
    Line.Seamless.append (by decide) ((kind_facts f.tag).2.2.append hend (.inr (by simp)))
      (.inl (by decide))
  exact hstart.append hrest (.inl (by simp))

/-- There are no blanks around it. -/
theorem Writable.trimChars_core (h : f.Writable) : Text.trimChars f.core = f.core := by
  obtain ⟨hfirst, -⟩ := Text.trimChars_eq_self_iff.1 h.base.trimChars_eq
  obtain ⟨-, hlast⟩ := Text.trimChars_eq_self_iff.1 h.surface.trimChars_eq
  -- the line begins as the base word does and ends as the surface does, and neither has blanks
  -- there
  have hstart : f.core.head? = f.base.toList.head? := by
    rw [core, List.append_assoc]
    exact List.head?_append_of_ne_nil _ h.base.toList_ne_nil
  have hend : f.core.getLast? = f.surface.toList.getLast? := by
    have hcore : f.core
        = (f.base.toList ++ [' '] ++ '*' :: (kind f.tag ++ ['=', ' '])) ++ f.surface.toList := by
      simp [core]
    rw [hcore]
    exact List.getLast?_append_of_ne_nil _ h.surface.toList_ne_nil
  apply Text.trimChars_eq_self_iff.2
  rw [hstart, hend]
  exact ⟨hfirst, hlast⟩

/-- Neither the indent nor anything that looks like a comment gets in the way. -/
theorem Writable.clean_line (h : f.Writable) : Line.clean f.line = String.ofList f.core := by
  apply Line.clean_append _ h.seamless_core h.trimChars_core
  simp

/-- The line of a form opens no section: it begins with the base word, and a base word that begins
with an equals sign is not writable. -/
theorem Writable.startsWith_core (h : f.Writable) :
    Line.startsWith (String.ofList f.core) "=" = false := by
  have hunopened := h.unopened
  have hne := h.base.toList_ne_nil
  rw [Line.startsWith, core]
  cases hbase : f.base.toList with
  | nil => exact absurd hbase hne
  | cons c cs =>
    rw [hbase, List.head?_cons, ne_eq, Option.some.injEq] at hunopened
    have hfirst : ('=' == c) = false := beq_eq_false_iff_ne.2 (Ne.symm hunopened)
    rw [String.toList_ofList, String.toList_ofList]
    show (['='].isPrefixOf (c :: _)) = false
    rw [List.isPrefixOf, hfirst, Bool.false_and]

theorem isEmpty_core (f : IrregularForm) : (String.ofList f.core).isEmpty = false := by
  rw [← Bool.not_eq_true, String.isEmpty_iff, ← String.toList_inj, String.toList_ofList]
  simp [core]

theorem Writable.unbroken_line (h : f.Writable) : '\n' ∉ f.line.toList ∧ '\r' ∉ f.line.toList := by
  rw [line, String.toList_ofList]
  simp [h.seamless_core.lineFeed, h.seamless_core.carriageReturn]

end IrregularForm

namespace Irregulars

variable {m : Irregulars} {c : WordClass} {form : IrregularForm} {forms : List IrregularForm}

/-! ## Forms that are entered one after another -/

/-- The base words of a class after some forms were entered, each of which there was room for. -/
def gather (c : WordClass) (bases : List String) : List IrregularForm → List String
  | [] => bases
  | f :: rest =>
    gather c (if f.tag.wordClass? = some c ∧ f.base ∉ bases then bases ++ [f.base] else bases) rest

/-- Base words that are gathered come after those that were there. -/
theorem isPrefix_gather (c : WordClass) (bases : List String) (forms : List IrregularForm) :
    bases <+: gather c bases forms := by
  induction forms generalizing bases with
  | nil => exact List.prefix_rfl
  | cons f forms ih =>
    refine List.IsPrefix.trans ?_ (ih _)
    split
    · exact List.prefix_append _ _
    · exact List.prefix_rfl

/-- Forms may be gathered in two portions. -/
theorem gather_append (c : WordClass) (bases : List String) (forms more : List IrregularForm) :
    gather c bases (forms ++ more) = gather c (gather c bases forms) more := by
  induction forms generalizing bases with
  | nil => rfl
  | cons f forms ih => exact ih _

/-- Forms of other classes bring no base words. -/
theorem gather_of_other {bases : List String} (h : ∀ f ∈ forms, f.tag.wordClass? ≠ some c) :
    gather c bases forms = bases := by
  induction forms with
  | nil => rfl
  | cons f forms ih =>
    rw [gather, if_neg fun hf => h f (List.mem_cons_self ..) hf.1]
    exact ih fun g hg => h g (List.mem_cons_of_mem _ hg)

/-- Forms of a word that is there bring no base word. -/
theorem gather_of_mem {bases : List String} {base : String} (hbase : base ∈ bases)
    (h : ∀ f ∈ forms, f.base = base) : gather c bases forms = bases := by
  induction forms with
  | nil => rfl
  | cons f forms ih =>
    rw [gather, if_neg fun hf => hf.2 (h f (List.mem_cons_self ..) ▸ hbase)]
    exact ih fun g hg => h g (List.mem_cons_of_mem _ hg)

/-- A form of a new word for which there is room is put at the end, and the word joins the base
words of its class. -/
theorem enter_of_room (hclass : form.tag.wordClass? = some c)
    (hkey : form.key ∉ m.forms.map (·.key))
    (hroom : form.base ∉ m.bases c → (m.bases c).length < m.capacity) :
    (m.enter c form).1.forms = m.forms ++ [form] ∧ (m.enter c form).1.capacity = m.capacity
      ∧ (∀ c', (m.enter c form).1.bases c' = gather c' (m.bases c') [form])
      ∧ (m.enter c form).2 = (true, []) := by
  have hentered : (m.enter c form).2 = (true, []) := by
    unfold enter
    simp only
    rw [if_neg]
    simpa using hroom
  rcases enter_cases m c form with ⟨_, hnew, hfull⟩ | ⟨hforms, hcapacity, hbases⟩
  · have hlt := hroom hnew
    omega
  · refine ⟨hforms.trans (putForm_of_not_mem hkey), hcapacity, fun c' => ?_, hentered⟩
    rw [gather, gather, hclass]
    -- a list takes up the base word if it is its class and the word is new to it
    rcases hbases with ⟨hknown, hbases⟩ | ⟨⟨hnew, _⟩, hbases⟩
    · rw [hbases, if_neg]
      rintro ⟨hsame, hnew⟩
      cases hsame
      exact hnew hknown
    · rw [hbases]
      by_cases hc : c' = c
      · subst hc
        rw [if_pos rfl, if_pos ⟨rfl, hnew⟩]
      · rw [if_neg hc, if_neg fun h => hc (Option.some.inj h.1).symm]

/-- Takes the line of a form. -/
theorem take_line {path : String} {entered number : Nat} {notes : Journal} (h : form.Writable)
    (hclass : form.tag.wordClass? = some c) :
    Scan.take path ⟨m, true, entered, notes⟩ number form.line
      = ⟨(m.enter c form).1, true, entered + (if (m.enter c form).2.1 then 1 else 0),
          notes ++ (m.enter c form).2.2⟩ := by
  have hadd : m.addLine (String.ofList form.core) (path ++ ":" ++ toString number) = m.enter c form := by
    rw [addLine, h.parseLine?_core]
    simp only [hclass]
  simp only [Scan.take, h.clean_line, h.startsWith_core, form.isEmpty_core, hadd]
  rfl

/-- The lines of forms none of which takes the place of another, if there is room for all.

Each line enters its form at the end. The invariant is that the keys so far differ from those to
come, and that each class has room for the base words that are still missing. -/
theorem takeAll_lines (m : Irregulars) (path : String) (entered number : Nat) (notes : Journal)
    (hwritable : ∀ f ∈ forms, f.Writable) (hclassed : ∀ f ∈ forms, ∃ c, f.tag.wordClass? = some c)
    (hkeys : ((m.forms ++ forms).map (·.key)).Nodup)
    (hroom : ∀ c, gather c (m.bases c) forms ≠ [] → (gather c (m.bases c) forms).length ≤ m.capacity) :
    ∃ filled : Irregulars,
      Scan.takeAll path ⟨m, true, entered, notes⟩ number (forms.map (·.line))
          = ⟨filled, true, entered + forms.length, notes⟩
        ∧ filled.forms = m.forms ++ forms
        ∧ ∀ c, filled.bases c = gather c (m.bases c) forms := by
  induction forms generalizing m entered number with
  | nil => exact ⟨m, rfl, (List.append_nil _).symm, fun _ => rfl⟩
  | cons form forms ih =>
    obtain ⟨c, hclass⟩ := hclassed form (List.mem_cons_self ..)
    -- the form is new, so it is put behind the others
    have hkey : form.key ∉ m.forms.map (·.key) := by
      rw [List.map_append, List.map_cons] at hkeys
      exact fun hmem => (List.disjoint_of_nodup_append hkeys) hmem (List.mem_cons_self ..)
    have hplace : form.base ∉ m.bases c → (m.bases c).length < m.capacity := by
      intro hnew
      -- the word is among those gathered in the end
      have hlater := isPrefix_gather c (m.bases c ++ [form.base]) forms
      have hroom := hroom c
      rw [gather, if_pos ⟨hclass, hnew⟩] at hroom
      have hlength := hlater.length_le
      have hle := hroom fun hnil => by simp [hnil] at hlength
      rw [List.length_append, List.length_singleton] at hlength
      omega
    obtain ⟨hforms, hcapacity, hbases, hentered⟩ := enter_of_room hclass hkey hplace
    obtain ⟨filled, htaken, hfilled, hgathered⟩ := ih (m.enter c form).1 (entered + 1) (number + 1)
      (fun f hf => hwritable f (List.mem_cons_of_mem _ hf))
      (fun f hf => hclassed f (List.mem_cons_of_mem _ hf))
      (by rw [hforms, List.append_assoc]; exact hkeys)
      (fun c' => by rw [hbases, hcapacity]; exact hroom c')
    refine ⟨filled, ?_, ?_, fun c' => ?_⟩
    · have htake := hwritable form (List.mem_cons_self ..)
      rw [List.map_cons, Scan.takeAll, take_line htake hclass, hentered]
      simp only [if_true, List.append_nil, htaken, List.length_cons]
      congr 1
      omega
    · rw [hfilled, hforms, List.append_assoc]
      rfl
    · rw [hgathered, hbases]
      rfl

/-! ## The forms in the order of the file -/

/-- The forms of a word with the tags of a class. -/
def group (m : Irregulars) (c : WordClass) (base : String) : List IrregularForm :=
  c.tags.filterMap fun t => (m.surface? base t).map fun surface => ⟨t, base, surface⟩

/-- The forms as they are written: class by class and word by word. -/
def filed (m : Irregulars) : List IrregularForm :=
  WordClass.all.flatMap fun c => (m.bases c).flatMap (m.group c)

variable {f : IrregularForm} {base : String} {capacity : Int}

/-- The group of a base word has the forms that the table has for it in a class. -/
theorem mem_group : f ∈ m.group c base
    ↔ f.tag.wordClass? = some c ∧ f.base = base ∧ m.surface? base f.tag = some f.surface := by
  simp only [group, List.mem_filterMap, Option.map_eq_some_iff, WordClass.mem_tags_iff]
  constructor
  · rintro ⟨t, hclass, surface, hsurface, rfl⟩
    exact ⟨hclass, rfl, hsurface⟩
  · rintro ⟨hclass, rfl, hsurface⟩
    exact ⟨f.tag, hclass, f.surface, hsurface, rfl⟩

/-- Every form is written, and nothing else. -/
theorem Consistent.mem_filed (h : Consistent capacity m) : f ∈ m.filed ↔ f ∈ m.forms := by
  simp only [filed, List.mem_flatMap, mem_group]
  constructor
  · rintro ⟨c, _, base, _, _, rfl, hsurface⟩
    exact (surface?_eq_some_iff h.keys).1 hsurface
  · intro hf
    obtain ⟨c, hclass⟩ := h.classed f hf
    refine ⟨c, ?_, f.base, ?_, hclass, rfl, (surface?_eq_some_iff h.keys).2 hf⟩
    · cases c <;> simp [WordClass.all]
    · exact (h.mem_bases c f.base).2 ⟨f, hf, rfl, hclass⟩

/-- A group has at most one form for each tag, and the tags of a class are different. -/
theorem nodup_group (m : Irregulars) (c : WordClass) (base : String) : (m.group c base).Nodup := by
  apply List.Nodup.filterMap
  · intro t t' f hf hf'
    simp only [Option.mem_def, Option.map_eq_some_iff] at hf hf'
    obtain ⟨_, _, rfl⟩ := hf
    obtain ⟨_, _, heq⟩ := hf'
    exact (congrArg IrregularForm.tag heq).symm
  · cases c <;> decide

/-- No form is filed twice, as base words are told apart within a class and classes by their tags. -/
theorem Consistent.nodup_filed (h : Consistent capacity m) : m.filed.Nodup := by
  apply List.nodup_flatMap.2
  constructor
  · intro c _
    apply List.nodup_flatMap.2
    refine ⟨fun base _ => nodup_group m c base, (h.bases c).imp fun hne f hf hf' => hne ?_⟩
    exact (mem_group.1 hf).2.1.symm.trans (mem_group.1 hf').2.1
  -- classes share no form
  · have hall : WordClass.all.Nodup := by decide
    refine hall.imp fun hne f hf hf' => hne ?_
    obtain ⟨_, _, hf⟩ := List.mem_flatMap.1 hf
    obtain ⟨_, _, hf'⟩ := List.mem_flatMap.1 hf'
    exact Option.some.inj ((mem_group.1 hf).1.symm.trans (mem_group.1 hf').1)

theorem Consistent.perm_filed (h : Consistent capacity m) : m.filed.Perm m.forms := by
  have hforms : m.forms.Nodup := List.Nodup.of_map _ h.keys
  exact (List.perm_ext_iff_of_nodup h.nodup_filed hforms).2 fun f => h.mem_filed

/-- Words that come one after another, each with a form, are gathered in this order. The induction
is on the words, behind those that were gathered before. -/
theorem gather_flatMap_group {bases words : List String} (hnodup : (bases ++ words).Nodup)
    (hforms : ∀ base ∈ words, m.group c base ≠ []) :
    gather c bases (words.flatMap (m.group c)) = bases ++ words := by
  induction words generalizing bases with
  | nil => exact (List.append_nil bases).symm
  | cons base words ih =>
    have hnew : base ∉ bases := fun hmem =>
      List.disjoint_of_nodup_append hnodup hmem (List.mem_cons_self ..)
    have hgroup : gather c bases (m.group c base) = bases ++ [base] := by
      obtain ⟨f, rest, hf⟩ := List.exists_cons_of_ne_nil (hforms base (List.mem_cons_self ..))
      have hall : ∀ g ∈ f :: rest, g.tag.wordClass? = some c ∧ g.base = base := by
        rw [← hf]
        exact fun g hg => ⟨(mem_group.1 hg).1, (mem_group.1 hg).2.1⟩
      obtain ⟨hclass, rfl⟩ := hall f (List.mem_cons_self ..)
      rw [hf, gather, if_pos ⟨hclass, hnew⟩]
      -- the first form brings the word, the others find it there
      exact gather_of_mem (List.mem_append_right _ (List.mem_singleton.2 rfl))
        fun g hg => (hall g (List.mem_cons_of_mem _ hg)).2
    rw [List.flatMap_cons, gather_append, hgroup, ih (by rwa [List.append_assoc])
      fun other hother => hforms other (List.mem_cons_of_mem _ hother), List.append_assoc]
    rfl

/-- The base words come back in their order. Forms are filed by their classes, and only those of its
own class matter to a list of base words. -/
theorem Consistent.gather_filed (h : Consistent capacity m) (c : WordClass) :
    gather c [] m.filed = m.bases c := by
  have hsame : gather c [] ((m.bases c).flatMap (m.group c)) = m.bases c := by
    apply gather_flatMap_group (h.bases c)
    intro base hbase
    obtain ⟨f, hf, rfl, hclass⟩ := (h.mem_bases c base).1 hbase
    apply List.ne_nil_of_mem (a := f)
    exact mem_group.2 ⟨hclass, rfl, (surface?_eq_some_iff h.keys).2 hf⟩
  have hother : ∀ (c' : WordClass) {bases : List String}, c' ≠ c →
      gather c bases ((m.bases c').flatMap (m.group c')) = bases := by
    intro c' bases hne
    apply gather_of_other
    intro f hf hclass
    obtain ⟨base, _, hf⟩ := List.mem_flatMap.1 hf
    exact hne (Option.some.inj ((mem_group.1 hf).1.symm.trans hclass))
  -- of the three classes one brings its own base words back, in their order
  simp only [filed, WordClass.all, List.flatMap_cons, List.flatMap_nil, List.append_nil, gather_append]
  cases c with
  | noun => rw [hother .verb (by decide), hother .adjective (by decide), hsame]
  | adjective => rw [hother .verb (by decide), hother .noun (by decide), hsame]
  | verb => rw [hother .noun (by decide), hother .adjective (by decide), hsame]

/-! ## Saving and loading -/

/-- The lines before those of the forms. -/
def heading : List String :=
  ["// irregular morphologies (npl, npos, acomp, asup, adv, vpres, vprog, vpast)", "", "=[XXX-morph]"]

theorem unbroken_heading : ∀ l ∈ heading, '\n' ∉ l.toList ∧ '\r' ∉ l.toList := by
  decide +kernel

/-- The section is written line by line: the heading, and a line for each form that is filed. -/
theorem sectionText_eq (hwritable : ∀ f ∈ m.filed, f.Writable) :
    m.sectionText = String.join ((heading ++ m.filed.map (·.line)).map (· ++ "\n")) := by
  have hheading :
      "// irregular morphologies (npl, npos, acomp, asup, adv, vpres, vprog, vpast)\n\n=[XXX-morph]\n"
        = String.join (heading.map (· ++ "\n")) := by
    decide +kernel
  rw [List.map_append, String.join_append]
  refine congrArg₂ (· ++ ·) hheading (congrArg String.join ?_)
  simp only [filed, List.map_flatMap, group, List.map_filterMap]
  apply List.flatMap_congr
  intro c hc
  apply List.flatMap_congr
  intro base hbase
  apply List.filterMap_congr
  intro t ht
  -- only a form that the table has makes a line, and no such form is empty
  cases hsurface : m.surface? base t with
  | none => rfl
  | some surface =>
    have hmem : ⟨t, base, surface⟩ ∈ m.filed := by
      refine List.mem_flatMap.2 ⟨c, hc, List.mem_flatMap.2 ⟨base, hbase, ?_⟩⟩
      exact mem_group.2 ⟨WordClass.mem_tags_iff.1 ht, rfl, hsurface⟩
    have hne : ¬ surface.isEmpty := by simpa using (hwritable _ hmem).surface.ne_empty
    simp only [Option.map_some, if_neg hne]
    rw [← IrregularForm.formLine_eq]

/-- So it is cut into these lines when it is read. -/
theorem lines_sectionText (hwritable : ∀ f ∈ m.filed, f.Writable) :
    Text.lines m.sectionText = heading ++ m.filed.map (·.line) := by
  rw [sectionText_eq hwritable]
  apply Text.lines_join
  intro l hl
  rcases List.mem_append.1 hl with hl | hl
  · exact unbroken_heading l hl
  · obtain ⟨f, hf, rfl⟩ := List.mem_map.1 hl
    exact (hwritable f hf).unbroken_line

/-- A table that was saved is there to be read. -/
theorem read_of_save {files : Files} {route : Route} {count : Nat}
    (hsaved : (m.save files route).result = .ok (some count)) :
    (m.save files route).state.read route = .ok (.text m.sectionText) := by
  unfold save at hsaved ⊢
  cases hwrite : files.write route m.sectionText with
  | error e =>
    rw [hwrite] at hsaved
    cases e <;> cases hsaved
  | ok written => exact Files.read_of_write_same hwrite

/-- The heading opens the section of irregular forms and adds nothing. -/
theorem takeAll_heading (m : Irregulars) (path : String) (lines : List String) :
    Scan.takeAll path ⟨m, false, 0, []⟩ 1 (heading ++ lines)
      = Scan.takeAll path ⟨m, true, 0, []⟩ 4 lines := by
  have hcomment : Line.clean
      "// irregular morphologies (npl, npos, acomp, asup, adv, vpres, vprog, vpast)" = "" := by
    decide +kernel
  have hempty : Line.clean "" = "" := by decide
  have hhead : Line.clean "=[XXX-morph]" = "=[XXX-morph]" := by decide +kernel
  have hirregular : (Line.header? "=[XXX-morph]").any Line.isIrregularHead = true := by decide +kernel
  have hrule : Line.startsWith "=[XXX-morph]" "=" = true := by decide
  have hnone : Line.startsWith "" "=" = false := by decide
  -- the first two lines are a comment and empty; the third is the header
  simp only [heading, List.cons_append, List.nil_append, Scan.takeAll, Scan.take, hcomment, hempty,
    hhead, hirregular, hrule, hnone]
  rfl

/-- A table that was saved is loaded into a new one: it has the same forms, the same base words in the
same order, and inflects every word in the same way. -/
theorem load_save {capacity : Int} {m : Irregulars} {files : Files} {route : Route} {count : Nat}
    (hreached : Reached capacity m) (hwritable : ∀ f ∈ m.forms, f.Writable) (hdistinct : m.Distinct)
    (hsaved : (m.save files route).result = .ok (some count)) (append : Bool) :
    let loaded := ({ capacity } : Irregulars).load (m.save files route).state route append
    loaded.result = .ok (some m.size)
      ∧ (∀ base t, loaded.state.surface? base t = m.surface? base t)
      ∧ (∀ c, loaded.state.bases c = m.bases c)
      ∧ ∀ word tags, loaded.state.surface word tags = m.surface word tags
        ∧ loaded.state.base word tags = m.base word tags := by
  have h := hreached.consistent
  have hfiled : ∀ f ∈ m.filed, f.Writable := fun f hf => hwritable f (h.mem_filed.1 hf)
  have hread := read_of_save hsaved
  have hlines := lines_sectionText hfiled
  have hkeys : (m.filed.map (·.key)).Nodup := (h.perm_filed.map _).nodup_iff.2 h.keys
  have hnone : ∀ c, ({ capacity } : Irregulars).bases c = [] := by
    intro c
    cases c <;> rfl
  -- the lines are read into a table without forms
  obtain ⟨filled, htaken, hforms, hbases⟩ := takeAll_lines { capacity } route.shown 0 4 []
    hfiled (fun f hf => h.classed f (h.mem_filed.1 hf)) hkeys
    (fun c => by rw [hnone, h.gather_filed]; exact h.room c)
  have hload : ({ capacity } : Irregulars).load (m.save files route).state route append
      = ⟨filled, .ok (some m.size), []⟩ := by
    have hstart : (if append then { capacity } else clear { capacity }) = ({ capacity } : Irregulars) := by
      cases append <;> rfl
    simp only [load, hread, hstart, Content.lines, hlines, takeAll_heading, htaken, Nat.zero_add,
      h.perm_filed.length_eq]
    rfl
  -- the order of the forms may differ, but look-ups do not depend on it
  have hsame : ∀ f, f ∈ filled.forms ↔ f ∈ m.forms := by
    intro f
    rw [hforms]
    exact h.mem_filed
  have hfilled : (filled.forms.map (·.key)).Nodup := by
    rw [hforms]
    exact hkeys
  have hsurface := surface?_congr hfilled h.keys hsame
  have hbase := base?_congr hfilled h.keys hdistinct hsame
  simp only [hload]
  refine ⟨trivial, hsurface, fun c => ?_, fun word tags => ?_⟩
  · rw [hbases, hnone, h.gather_filed]
  · exact ⟨surface_congr hsurface word tags, base_congr hbase word tags⟩

/-- Forms entered out of order, one of them twice. -/
def samples : Irregulars :=
  let m : Irregulars := { capacity := 2 }
  let m := (m.add "go" (.single .past) "goed").state
  let m := (m.add "hot dog" (.single .possessive) "dog's = hot").state
  let m := (m.add "go" (.single .past) "went").state
  (m.addLine "good * adv = well" "").1

/-- The sample table comes back from a file, with a base word of two words and a form with an equals
sign. -/
theorem load_save_samples :
    Reached 2 samples ∧ (∀ f ∈ samples.forms, f.Writable) ∧ samples.Distinct
      ∧ (samples.save .empty (.ofString "forms.sgm")).result = .ok (some 3)
      ∧ (let loaded := ({ capacity := 2 } : Irregulars).load
          (samples.save .empty (.ofString "forms.sgm")).state (.ofString "forms.sgm") true
        loaded.result = .ok (some samples.size)
          ∧ (∀ base t, loaded.state.surface? base t = samples.surface? base t)
          ∧ (∀ c, loaded.state.bases c = samples.bases c)
          ∧ ∀ word tags, loaded.state.surface word tags = samples.surface word tags
            ∧ loaded.state.base word tags = samples.base word tags) := by
  have hreached : Reached 2 samples := (((Reached.fresh.add _ _ _).add _ _ _).add _ _ _).addLine _ _
  have hforms : samples.forms
      = [⟨.past, "go", "went"⟩, ⟨.possessive, "hot dog", "dog's = hot"⟩, ⟨.adverb, "good", "well"⟩] := by
    decide +kernel
  have hwritable : ∀ f ∈ samples.forms, f.Writable := by
    rw [hforms]
    decide +kernel
  have hdistinct : samples.Distinct := by
    rw [Distinct, hforms]
    decide +kernel
  have hsaved : (samples.save .empty (.ofString "forms.sgm")).result = .ok (some 3) := by
    rfl
  exact ⟨hreached, hwritable, hdistinct, hsaved, load_save hreached hwritable hdistinct hsaved true⟩

end Irregulars

end Utterance
