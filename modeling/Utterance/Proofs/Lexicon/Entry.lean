import Utterance.Inflection
import Utterance.Proofs.Rule.Line
import Utterance.Proofs.Rule.Signs

/-!
# Entries of a lexicon

An entry is what is left of a line of a file: it has no space or tab before it, no blank behind it, and
nothing in it that starts a comment or ends the line, apart from slashes. A form of an entry is an entry
again. The suffix rules change the end of a word only and put letters, hyphens and apostrophes there, and
an irregular form was part of a line itself.
-/

namespace Utterance

namespace Lexicon

/-! ## Entries -/

/-- A character that neither starts a comment nor ends a line. -/
def Calm (c : Char) : Prop := c ≠ ';' ∧ c ≠ '\n' ∧ c ≠ '\r'

/-- The start of an entry. -/
structure Begins (cs : List Char) : Prop where
  ne_nil : cs ≠ []
  first : ∀ c ∈ cs.head?, c ≠ ' ' ∧ c ≠ '\t'
  calm : ∀ c ∈ cs, Calm c

/-- A text that a line of a lexicon may be left with, apart from its slashes. -/
structure IsEntry (cs : List Char) : Prop extends Begins cs where
  last : ∀ c ∈ cs.getLast?, Text.isBlank c = false

variable {cs ds : List Char}

/-- What is put behind the start of an entry must only be free of comments and line ends. -/
theorem Begins.append (h : Begins cs) (hcalm : ∀ c ∈ ds, Calm c) : Begins (cs ++ ds) where
  ne_nil := by simp [h.ne_nil]
  first := by
    rw [List.head?_append_of_ne_nil _ h.ne_nil]
    exact h.first
  calm c hc := (List.mem_append.1 hc).elim (h.calm c) (hcalm c)

/-- The front of a start is a start, if there is something of it. -/
theorem Begins.of_append (h : Begins (cs ++ ds)) (hne : cs ≠ []) : Begins cs where
  ne_nil := hne
  first := by
    rw [← List.head?_append_of_ne_nil cs hne]
    exact h.first
  calm c hc := h.calm c (List.mem_append_left _ hc)

/-- What completes an entry. -/
structure IsEnding (ds : List Char) : Prop where
  ne_nil : ds ≠ []
  calm : ∀ c ∈ ds, Calm c
  last : ∀ c ∈ ds.getLast?, Text.isBlank c = false

/-- A start and an ending make an entry. -/
theorem Begins.isEntry_append (h : Begins cs) (hd : IsEnding ds) : IsEntry (cs ++ ds) where
  toBegins := h.append hd.calm
  last := by
    rw [List.getLast?_append_of_ne_nil _ hd.ne_nil]
    exact hd.last

/-- The endings of words are made of small letters and apostrophes, none of which is blank or has a
meaning in a line. -/
theorem isEnding_of_all (hne : ds ≠ []) (h : ds.all (fun c => c.isLower || c == '\x27') = true) :
    IsEnding ds := by
  have hchar : ∀ c ∈ ds, Calm c ∧ Text.isBlank c = false := by
    intro c hc
    have hc := List.all_eq_true.1 h c hc
    rw [Bool.or_eq_true, beq_iff_eq] at hc
    rcases hc with hsmall | rfl
    · refine ⟨⟨?_, ?_, ?_⟩, ?_⟩
      · rintro rfl
        cases hsmall
      · rintro rfl
        cases hsmall
      · rintro rfl
        cases hsmall
      · -- the small letters lie between two runs of blanks
        have hrange : (decide (97 ≤ c.toNat) && decide (c.toNat ≤ 122)) = true := hsmall
        rw [Bool.and_eq_true, decide_eq_true_eq, decide_eq_true_eq] at hrange
        obtain ⟨hfrom, hto⟩ := hrange
        simp only [Text.isBlank, Bool.or_eq_false_iff, Bool.and_eq_false_iff, decide_eq_false_iff_not,
          beq_eq_false_iff_ne]
        omega
    · simp [Calm, Text.isBlank]
  exact ⟨hne, fun c hc => (hchar c hc).1, fun c hc => (hchar c (List.mem_of_getLast? hc)).2⟩

/-! ## What is left of a line -/

/-- What is dropped from the end leaves a front part. -/
theorem isPrefix_dropTailWhile (p : Char → Bool) (cs : List Char) :
    Text.dropTailWhile p cs <+: cs := by
  rw [Text.dropTailWhile, ← List.reverse_suffix, List.reverse_reverse]
  exact List.dropWhile_suffix p

/-- What stands before two slashes is a front part. -/
theorem isPrefix_beforeSlashes (cs : List Char) : Line.beforeSlashes cs <+: cs := by
  fun_induction Line.beforeSlashes cs with
  | case1 => exact List.nil_prefix
  | case2 => exact List.nil_prefix
  | case3 c cs _ ih => exact List.prefix_cons_inj c |>.2 ih

/-- Only the end of a line is lost, after the spaces and tabs before it. -/
theorem isPrefix_clean (raw : String) :
    (Line.clean raw).toList <+: raw.toList.dropWhile fun c => c == ' ' || c == '\t' := by
  rw [Line.clean, String.toList_ofList]
  exact (isPrefix_dropTailWhile _ _).trans ((isPrefix_beforeSlashes _).trans
    ((Text.cutAt_fst_prefix _ _).trans (isPrefix_dropTailWhile _ _)))

theorem mem_of_mem_clean {raw : String} {c : Char} (h : c ∈ (Line.clean raw).toList) :
    c ∈ raw.toList :=
  (List.dropWhile_suffix _).subset ((isPrefix_clean raw).subset h)

/-- What is left of a line is an entry, if anything is. -/
theorem isEntry_clean {raw : String} (hbreak : '\n' ∉ raw.toList ∧ '\r' ∉ raw.toList)
    (hne : Line.clean raw ≠ "") : IsEntry (Line.clean raw).toList where
  ne_nil := by simpa using hne
  first c hc := by
    obtain ⟨rest, hrest⟩ := isPrefix_clean raw
    have hhead : (raw.toList.dropWhile fun c => c == ' ' || c == '\t').head? = some c := by
      rw [← hrest, List.head?_append, Option.mem_def.1 hc]
      rfl
    simpa using Text.head?_dropWhile c hhead
  -- nothing behind a semicolon is left, and line ends were taken off when the file was cut into
  -- lines
  calm c hc := by
    refine ⟨?_, ?_, ?_⟩ <;> rintro rfl
    · rw [Line.clean, String.toList_ofList] at hc
      exact Sugar.not_mem_cutAt ';' _
        ((isPrefix_beforeSlashes _).subset ((isPrefix_dropTailWhile _ _).subset hc))
    · exact hbreak.1 (mem_of_mem_clean hc)
    · exact hbreak.2 (mem_of_mem_clean hc)
  last := by
    rw [Line.clean, String.toList_ofList]
    exact Text.getLast?_dropTailWhile

/-- The lines of a file have no line end in them. -/
theorem unbroken_of_lines {content : Content} {lines : List String} (h : content.lines = .ok lines) :
    ∀ raw ∈ lines, '\n' ∉ raw.toList ∧ '\r' ∉ raw.toList := by
  cases content with
  | text s =>
    cases h
    exact fun raw hraw => Text.unbroken_of_mem_lines hraw
  | bytes bs => cases h

end Lexicon

/-! ## Suffix rules -/

namespace Suffix

open Lexicon

variable {w t e : List Char}

/-- A word that keeps its start, with something else at its end. Words are given from the last letter to
the first. -/
theorem begins_of_isSuffix (h : Begins w.reverse) (ht : t <:+ w) (hne : t ≠ [])
    (hcalm : ∀ c ∈ e, Calm c) : Begins (e ++ t).reverse := by
  obtain ⟨lost, rfl⟩ := ht
  rw [List.reverse_append] at h ⊢
  exact (h.of_append (by simpa using hne)).append fun c hc => hcalm c (List.mem_reverse.1 hc)

/-- A word that keeps its start and gets an ending is an entry. -/
theorem isEntry_of_isSuffix (h : Begins w.reverse) (ht : t <:+ w) (hne : t ≠ [])
    (he : IsEnding e.reverse) : IsEntry (e ++ t).reverse := by
  obtain ⟨lost, rfl⟩ := ht
  rw [List.reverse_append] at h ⊢
  exact (h.of_append (by simpa using hne)).isEntry_append he

theorem ne_nil_of_begins (h : Begins w.reverse) : w ≠ [] := by
  simpa using h.ne_nil

/-- With an s, or one of its spellings, a word is an entry. Nothing is lost of the word but a final
y, and then there is a character before it. -/
theorem isEntry_addS (h : Begins w.reverse) : IsEntry (addS w).reverse := by
  have hplain : IsEntry (['s'] ++ w).reverse :=
    isEntry_of_isSuffix h (List.suffix_refl w) (ne_nil_of_begins h) (isEnding_of_all (by decide) (by decide))
  have hlong : IsEntry (['s', 'e'] ++ w).reverse :=
    isEntry_of_isSuffix h (List.suffix_refl w) (ne_nil_of_begins h) (isEnding_of_all (by decide) (by decide))
  unfold addS
  split
  · rename_i c rest
    split
    · exact hplain
    -- the final y is lost
    · exact isEntry_of_isSuffix (e := ['s', 'e', 'i']) h (List.suffix_cons 'y' (c :: rest))
        (List.cons_ne_nil c rest) (isEnding_of_all (by decide) (by decide))
  · exact hlong
  · exact hlong
  · exact hlong
  · exact hlong
  · exact hlong
  · exact hplain

/-- A word that is ready for an ending still starts as it did. What happens is at its end: a
consonant is doubled, an e is dropped, a y becomes an i, or a dash is added. -/
theorem begins_adapt (h : Begins w.reverse) (first : Char) : Begins (adapt first w).reverse := by
  have hmaybe : Begins (if w.contains '-' then '-' :: w else w).reverse := by
    split
    · exact begins_of_isSuffix (e := ['-']) h (List.suffix_refl w) (ne_nil_of_begins h) (by simp [Calm])
    · exact h
  unfold adapt
  split
  · split
    -- the final consonant is doubled
    · rename_i z rest _
      refine begins_of_isSuffix (e := [z]) h (List.suffix_refl _) (List.cons_ne_nil z rest) ?_
      intro c hc
      exact h.calm c (by rw [List.mem_singleton.1 hc]; simp)
    · exact absurd rfl (ne_nil_of_begins h)
  · split
    · rename_i y rest _
      split
      · exact begins_of_isSuffix (e := []) h (List.suffix_cons 'e' (y :: rest))
          (List.cons_ne_nil y rest) (by simp [Calm])
      · exact hmaybe
    · rename_i y rest _
      split
      · exact begins_of_isSuffix (e := ['i']) h (List.suffix_cons 'y' (y :: rest))
          (List.cons_ne_nil y rest) (by simp [Calm])
      · exact hmaybe
    · exact hmaybe

/-- With the ending of an adverb, a word is an entry. What an ending takes away of a word is at its
end, so the word still begins as it did. -/
theorem isEntry_addLy (h : Begins w.reverse) : IsEntry (addLy w).reverse := by
  have hplain : IsEntry (['y', 'l'] ++ w).reverse :=
    isEntry_of_isSuffix h (List.suffix_refl w) (ne_nil_of_begins h) (isEnding_of_all (by decide) (by decide))
  unfold addLy
  simp only
  split
  · rename_i rest
    exact isEntry_of_isSuffix (e := ['y', 'l']) h (List.suffix_cons 'l' ('l' :: rest))
      (List.cons_ne_nil 'l' rest) (isEnding_of_all (by decide) (by decide))
  · rename_i y rest
    split
    · exact isEntry_of_isSuffix (e := ['y', 'l']) h (List.suffix_cons 'e' (y :: rest))
        (List.cons_ne_nil y rest) (isEnding_of_all (by decide) (by decide))
    · exact hplain
  · rename_i rest
    cases rest with
    -- of a lone y nothing is left but the i
    | nil => exact ⟨⟨by decide, by simp, by simp [Calm]⟩, by simp [Text.isBlank]⟩
    | cons c rest =>
      exact isEntry_of_isSuffix (e := ['y', 'l', 'i']) h (List.suffix_cons 'y' (c :: rest))
        (List.cons_ne_nil c rest) (isEnding_of_all (by decide) (by decide))
  · exact hplain

/-! ## On words -/

variable {word form : String}

/-- The same of whole words, read from the front. -/
theorem isEntry_withS (h : Begins word.toList) : IsEntry (withS word).toList := by
  rw [withS, fromEnd, String.toList_ofList]
  exact isEntry_addS (by rwa [List.reverse_reverse])

/-- And of adverbs. -/
theorem isEntry_withLy (h : Begins word.toList) : IsEntry (withLy word).toList := by
  rw [withLy, fromEnd, String.toList_ofList]
  exact isEntry_addLy (by rwa [List.reverse_reverse])

/-- And of the other endings, each of which consists of small letters. -/
theorem isEntry_withEnding {ending : String} (h : Begins word.toList)
    (he : ending ∈ ["ing", "ed", "er", "est"]) (hform : withEnding word ending = .ok form) :
    IsEntry form.toList := by
  have hending : IsEnding ending.toList := by
    simp only [List.mem_cons, List.not_mem_nil, or_false] at he
    rcases he with rfl | rfl | rfl | rfl <;> exact isEnding_of_all (by decide) (by decide)
  rw [withEnding] at hform
  cases hletters : ending.toList with
  | nil => exact absurd hletters hending.ne_nil
  | cons first rest =>
    rw [hletters] at hform hending
    cases hform
    rw [String.toList_ofList, List.reverse_append, List.reverse_reverse]
    -- the stem that the ending is put to may have been changed at its end, but it begins as the
    -- word does
    exact (begins_adapt (by rwa [List.reverse_reverse]) first).isEntry_append hending

end Suffix

/-! ## Forms -/

namespace Irregulars

open Lexicon

variable {m : Irregulars} {word base form : String} {tags : Tags}

/-- A table whose forms are entries. -/
def Fits (m : Irregulars) : Prop := ∀ f ∈ m.forms, IsEntry f.surface.toList

/-- A word without a form for the tags stays as it is, or gets an ending. The four tags of a verb,
the two of a noun and the four of an adjective are gone through. -/
theorem regularForm_cases (h : Begins word.toList) (hform : regularForm word tags = some form) :
    form = word ∨ IsEntry form.toList := by
  have hending : ∀ e ∈ ["ing", "ed", "er", "est"],
      (Suffix.withEnding word e).toOption = some form → IsEntry form.toList := by
    intro e he hoption
    cases hresult : Suffix.withEnding word e with
    | error fault =>
      rw [hresult] at hoption
      cases hoption
    | ok found =>
      rw [hresult] at hoption
      cases hoption
      exact Suffix.isEntry_withEnding h he hresult
  have hword : ∀ {found : String}, some found = some form → IsEntry found.toList →
      form = word ∨ IsEntry form.toList := by
    rintro _ hsame hfound
    cases hsame
    exact .inr hfound
  unfold regularForm at hform
  simp only at hform
  -- by the class of the word, then by the tag
  split at hform
  · split at hform
    · exact .inl (Option.some.inj hform).symm
    · split at hform
      · exact hword hform (Suffix.isEntry_withS h)
      · cases hform
  · split at hform
    · split at hform
      · exact .inl (Option.some.inj hform).symm
      · split at hform
        · exact hword hform (Suffix.isEntry_withS h)
        · split at hform
          · exact .inr (hending "ing" (by decide) hform)
          · split at hform
            · exact .inr (hending "ed" (by decide) hform)
            · cases hform
    · split at hform
      · split at hform
        · exact .inl (Option.some.inj hform).symm
        · split at hform
          · exact .inr (hending "er" (by decide) hform)
          · split at hform
            · exact .inr (hending "est" (by decide) hform)
            · split at hform
              · exact hword hform (Suffix.isEntry_withLy h)
              · cases hform
      · cases hform

/-- An irregular form comes from the table. -/
theorem isEntry_of_surface? (hm : m.Fits) {t : Tag} (hform : m.surface? word t = some form) :
    IsEntry form.toList := by
  obtain ⟨f, hfound, rfl⟩ := Option.map_eq_some_iff.1 hform
  exact hm f (List.mem_of_find?_eq_some hfound)

/-- Whatever tag it is found under. -/
theorem isEntry_of_irregularForm (hm : m.Fits) (hform : m.irregularForm word tags = some form) :
    IsEntry form.toList := by
  obtain ⟨t, _, hsurface⟩ := Option.bind_eq_some_iff.1 hform
  exact isEntry_of_surface? hm hsurface

/-- A form of a word starts as an entry does, since it is irregular, the word itself, or the word
with an ending. -/
theorem begins_wordForm (hm : m.Fits) (h : Begins word.toList) (hform : m.wordForm word tags = some form) :
    Begins form.toList := by
  unfold wordForm at hform
  split at hform
  · rename_i hirregular
    cases hform
    exact (isEntry_of_irregularForm hm hirregular).toBegins
  · rcases regularForm_cases h hform with rfl | hentry
    · exact h
    · exact hentry.toBegins

/-- A form of a phrase is an entry: one of its words is replaced by a form, and the others stay. -/
theorem isEntry_phraseForm (hm : m.Fits) (h : IsEntry base.toList)
    (hform : m.phraseForm base tags = some form) : IsEntry form.toList := by
  unfold phraseForm at hform
  split at hform
  · rename_i hirregular
    cases hform
    exact isEntry_of_irregularForm hm hirregular
  · split at hform
    -- the first word is inflected, and the last one still stands at the end
    · rename_i head tail hcut
      obtain ⟨w, hw, rfl⟩ := Option.map_eq_some_iff.1 hform
      have hbase := Sugar.eq_of_cutAt hcut
      rw [hbase] at h
      have hhead : head ≠ [] := by
        rintro rfl
        exact (h.first ' ' rfl).1 rfl
      have hbegins : Begins w.toList :=
        begins_wordForm hm (by rw [String.toList_ofList]; exact h.toBegins.of_append hhead) hw
      simp only [String.toList_append, String.toList_ofList, List.append_assoc]
      refine hbegins.isEntry_append ⟨List.cons_ne_nil ' ' tail,
        fun c hc => h.calm c (List.mem_append_right _ hc), ?_⟩
      have hlast := h.last
      rwa [List.getLast?_append_of_ne_nil _ (List.cons_ne_nil _ _)] at hlast
    · rcases regularForm_cases h.toBegins hform with rfl | hentry
      · exact h
      · exact hentry

/-- The possessive of an entry has an apostrophe behind it, and perhaps an s. An irregular
possessive was read from a line, so it is an entry as it is. -/
theorem isEntry_possessiveForm (hm : m.Fits) (h : IsEntry base.toList)
    (hform : m.possessiveForm base tags = some form) : IsEntry form.toList := by
  have hending : ∀ {stem : String}, IsEntry stem.toList →
      IsEntry (stem ++ "'s").toList ∧ IsEntry (stem ++ "'").toList := by
    intro stem hstem
    rw [String.toList_append, String.toList_append]
    exact ⟨hstem.toBegins.isEntry_append (isEnding_of_all (by decide) (by decide)),
      hstem.toBegins.isEntry_append (isEnding_of_all (by decide) (by decide))⟩
  -- an irregular form is an entry of the table; a regular one ends in an apostrophe, with an s or
  -- without
  unfold possessiveForm at hform
  simp only at hform
  split at hform
  · rename_i hsurface _
    cases hform
    exact isEntry_of_surface? hm hsurface
  · cases hform
    exact (hending h).1
  · obtain ⟨stem, hstem, rfl⟩ := Option.map_eq_some_iff.1 hform
    have hentry := isEntry_phraseForm hm h hstem
    split
    · exact (hending hentry).2
    · exact (hending hentry).1

/-- A form of an entry is an entry. -/
theorem isEntry_form (hm : m.Fits) (h : IsEntry base.toList) (hform : m.form base tags = some form) :
    IsEntry form.toList := by
  unfold Irregulars.form at hform
  split at hform
  · exact isEntry_possessiveForm hm h hform
  · exact isEntry_phraseForm hm h hform

/-! ## Tables of a file -/

/-- A form of a table to which one was added is the new one or an old one. -/
theorem mem_putForm {new f : IrregularForm} {forms : List IrregularForm} (h : f ∈ putForm new forms) :
    f = new ∨ f ∈ forms := by
  induction forms with
  | nil => exact .inl (List.mem_singleton.1 h)
  | cons first forms ih =>
    rw [putForm] at h
    split at h
    · exact (List.mem_cons.1 h).imp_right (List.mem_cons_of_mem _)
    · rcases List.mem_cons.1 h with rfl | h
      · exact .inr (List.mem_cons_self ..)
      · exact (ih h).imp_right (List.mem_cons_of_mem _)

/-- Entering a form keeps a table of entries one, if the form is an entry. -/
theorem Fits.enter (hm : m.Fits) {f : IrregularForm} (hf : IsEntry f.surface.toList) (c : WordClass) :
    (m.enter c f).1.Fits := by
  have hput : ∀ m' : Irregulars, m'.forms = m.forms →
      Fits { m' with forms := putForm f m'.forms } := by
    intro m' hforms g hg
    rcases mem_putForm hg with rfl | hg
    · exact hf
    · exact hm g (hforms ▸ hg)
  unfold Irregulars.enter
  simp only
  split
  · exact hm
  · apply hput
    split
    · rfl
    · cases c <;> rfl

/-- The form on a line is a piece of the line without blanks around it, so it begins and ends as an
entry does. -/
theorem isEntry_surface_of_parseLine? {line : String} {f : IrregularForm}
    (hcalm : ∀ c ∈ line.toList, Calm c) (h : parseLine? line = some f) : IsEntry f.surface.toList := by
  unfold parseLine? at h
  split at h
  · cases h
  · rename_i hstar
    split at h
    · cases h
    · rename_i surface hequals
      simp only at h
      split at h
      · cases h
      · rename_i hne
        simp only [Bool.or_eq_true, List.isEmpty_iff, not_or] at hne
        obtain ⟨_, _, rfl⟩ := Option.map_eq_some_iff.1 h
        -- all of its characters are those of the line
        have hmem : ∀ c ∈ Text.trimChars surface, c ∈ line.toList := by
          intro c hc
          have hc := (List.dropWhile_suffix _).subset ((isPrefix_dropTailWhile _ _).subset hc)
          rw [Sugar.eq_of_cutAt hstar, Sugar.eq_of_cutAt hequals]
          simp [hc]
        simp only [String.toList_ofList]
        refine ⟨⟨hne.2, fun c hc => ?_, fun c hc => hcalm c (hmem c hc)⟩, Text.getLast?_dropTailWhile⟩
        have hblank := Text.head?_dropWhile c (Text.head?_dropTailWhile hc)
        constructor <;> (rintro rfl; cases hblank)

/-- A line adds its form, if it has one, and that form is an entry. -/
theorem Fits.addLine (hm : m.Fits) {line : String} (hcalm : ∀ c ∈ line.toList, Calm c) (whence : String) :
    (m.addLine line whence).1.Fits := by
  unfold Irregulars.addLine
  split
  · exact hm
  · rename_i f hparse
    split
    · exact hm
    · exact hm.enter (isEntry_surface_of_parseLine? hcalm hparse) _

/-- A line of the file is taken as such a line, or opens a section. Lines outside a section of
irregular forms and empty lines leave the table alone. -/
theorem Fits.take {s : Scan} (hm : s.table.Fits) {raw : String}
    (hraw : '\n' ∉ raw.toList ∧ '\r' ∉ raw.toList) (path : String) (number : Nat) :
    (s.take path number raw).table.Fits := by
  unfold Scan.take
  simp only
  split
  · exact hm
  · split
    · rename_i hentry
      rw [Bool.and_eq_true, Bool.not_eq_true', String.isEmpty_eq_false_iff] at hentry
      simp only
      exact hm.addLine (isEntry_clean hraw hentry.2).calm _
    · exact hm

/-- And so are all lines, one after the other. -/
theorem Fits.takeAll {s : Scan} (hm : s.table.Fits) {lines : List String}
    (hlines : ∀ raw ∈ lines, '\n' ∉ raw.toList ∧ '\r' ∉ raw.toList) (path : String) (number : Nat) :
    (Scan.takeAll path s number lines).table.Fits := by
  -- by induction on the lines, with the table that those before have made
  induction lines generalizing s number with
  | nil => exact hm
  | cons raw lines ih =>
    rw [Scan.takeAll]
    exact ih (hm.take (hlines raw (List.mem_cons_self ..)) path number)
      (fun other hother => hlines other (List.mem_cons_of_mem _ hother)) _

/-- In a table that was replaced by the forms of a file all forms are entries. -/
theorem fits_load {files : Files} {route : Route} {count : Nat}
    (hloaded : (m.load files route false).result = .ok (some count)) :
    (m.load files route false).state.Fits := by
  unfold load at hloaded ⊢
  simp only [Bool.false_eq_true, if_false] at hloaded ⊢
  split at hloaded
  · cases hloaded
  · cases hloaded
  · split at hloaded
    · cases hloaded
    · rename_i lines hlines
      exact Fits.takeAll (fun _ hf => absurd hf List.not_mem_nil) (unbroken_of_lines hlines) _ _

end Irregulars

end Utterance
