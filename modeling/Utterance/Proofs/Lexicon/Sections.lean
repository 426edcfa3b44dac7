import Utterance.Lexicon
import Utterance.Proofs.Lexicon.Entry

/-!
# Sections that are written and read again

A derived lexicon has a section for each head with forms, one form in a line, and comments between the
sections. Reading goes over it line by line: comments and blank lines are passed over, the line of a head
opens its section, and a line of a form puts the form at the end of the open section, if that is one of
those asked for. So what is read for a head is what was written for it.
-/

namespace Utterance.Lexicon

/-! ## Entries of a section -/

namespace Sections

/-- The entries of the first section come before those of the others. -/
theorem get_cons (n : String) (es : List String) (ss : Sections) (t : String) :
    get ((n, es) :: ss) t = if t = n then es else ss.get t := by
  by_cases h : t = n
  · simp [get, h]
  · have hne : (t == n) = false := by simpa using h
    simp [get, h, List.lookup_cons, hne]

/-- Pushing an entry adds it to its section alone. A section that is not there yet is made at the
end. -/
theorem get_push (ss : Sections) (name entry t : String) :
    (ss.push name entry).get t = if t = name then ss.get t ++ [entry] else ss.get t := by
  induction ss with
  | nil =>
    rw [push, get_cons]
    rfl
  | cons first rest ih =>
    obtain ⟨n, es⟩ := first
    rw [push]
    split
    · rename_i hn
      rw [get_cons, get_cons, hn]
      split <;> rfl
    · rename_i hn
      rw [get_cons, get_cons, ih]
      by_cases h : t = n
      · rw [if_pos h, if_pos h, if_neg (by rw [h]; exact hn)]
      · rw [if_neg h, if_neg h]

/-- Pushing several adds all of them, in order. -/
theorem get_foldl_push (ss : Sections) (name : String) (entries : List String) (t : String) :
    (entries.foldl (fun ss entry => ss.push name entry) ss).get t
      = if t = name then ss.get t ++ entries else ss.get t := by
  induction entries generalizing ss with
  | nil => simp
  | cons entry entries ih =>
    rw [List.foldl_cons, ih, get_push]
    split
    · rw [List.append_assoc, List.singleton_append]
    · rfl

/-- A new entry is added only if its section does not have it. The other sections stay as they are. -/
theorem get_pushNew (ss : Sections) (name entry t : String) :
    (ss.pushNew name entry).get t
      = if t = name ∧ entry ∉ ss.get t then ss.get t ++ [entry] else ss.get t := by
  unfold pushNew
  by_cases hname : t = name
  · subst hname
    split
    · rename_i hmem
      rw [if_neg (by simpa using hmem)]
    · rename_i hmem
      rw [get_push, if_pos rfl, if_pos ⟨rfl, by simpa using hmem⟩]
  -- in another section nothing is added, whether the entry is new in its own or not
  · rw [if_neg fun (h : t = name ∧ entry ∉ ss.get t) => hname h.1]
    split
    · rfl
    · rw [get_push, if_neg hname]

/-- An entry is in one of the sections. -/
theorem exists_of_mem_get {ss : Sections} {t entry : String} (h : entry ∈ ss.get t) :
    ∃ s ∈ ss, entry ∈ s.2 := by
  induction ss with
  | nil => cases h
  | cons first rest ih =>
    rw [get, List.lookup_cons] at h
    split at h
    · exact ⟨first, List.mem_cons_self .., h⟩
    · obtain ⟨s, hs, hentry⟩ := ih h
      exact ⟨s, List.mem_cons_of_mem _ hs, hentry⟩

end Sections

/-! ## Lines that are read -/

variable {wanted : List String} {current : Option String} {found : Sections} {rest : List String}

/-- What is read was left of a line, and opens no section. -/
theorem mem_get_collect {lines : List String} {t entry : String}
    (h : entry ∈ (collect wanted current found lines).get t) :
    entry ∈ found.get t
      ∨ ∃ raw ∈ lines, entry = Line.clean raw ∧ entry ≠ "" ∧ Line.startsWith entry "=" = false := by
  -- by induction on the lines, with the sections that those before have filled
  induction lines generalizing current found with
  | nil => exact .inl h
  | cons raw lines ih =>
    -- an entry may also come from a later line
    have hlater : ∀ {current : Option String} {found : Sections},
        entry ∈ (collect wanted current found lines).get t → entry ∈ found.get t
          ∨ ∃ raw' ∈ raw :: lines,
            entry = Line.clean raw' ∧ entry ≠ "" ∧ Line.startsWith entry "=" = false := by
      intro current found h
      refine (ih h).imp_right ?_
      rintro ⟨raw', hraw', hentry⟩
      exact ⟨raw', List.mem_cons_of_mem _ hraw', hentry⟩
    rw [collect.eq_def] at h
    simp only at h
    split at h
    · exact hlater h
    · rename_i hrule
      split at h
      · split at h
        · exact hlater h
        · rename_i hempty
          rcases hlater h with hfound | hraw
          · rw [Sections.get_push] at hfound
            split at hfound
            · rcases List.mem_append.1 hfound with hfound | hnew
              · exact .inl hfound
              · rw [List.mem_singleton] at hnew
                subst hnew
                exact .inr ⟨raw, List.mem_cons_self .., rfl, by simpa using hempty, by simpa using hrule⟩
            · exact .inl hfound
          · exact .inr hraw
      · exact hlater h

/-- A line of which nothing is left changes nothing. -/
theorem collect_skip {raw : String} (h : Line.clean raw = "") :
    collect wanted current found (raw :: rest) = collect wanted current found rest := by
  have hrule : Line.startsWith "" "=" = false := by decide
  rw [collect.eq_def]
  simp only [h, hrule, Bool.false_eq_true, if_false]
  cases current <;> rfl

/-- The line of a head opens its section, if it is one of those asked for. -/
theorem collect_opening {head : String} (h : Line.Opens head) (hupper : Text.upper head = head) :
    collect wanted current found (Line.opening head :: rest)
      = collect wanted (if wanted.contains head then some head else none) found rest := by
  rw [collect.eq_def]
  simp only [h.clean_opening, (Line.Opens.startsWith_opening head).2, h.header?_opening, if_true,
    Option.map_some, hupper, Option.filter_some]

/-- The line of a comment. -/
def commentLine (text : String) : String := "// " ++ text

/-- A comment leaves nothing of its line. -/
theorem clean_commentLine (text : String) : Line.clean (commentLine text) = "" := by
  have htext : (commentLine text).toList = '/' :: '/' :: ' ' :: text.toList := by simp [commentLine]
  have hslash : (fun c => c == '\r' || c == '\n') '/' = false := by decide
  rw [Line.clean, htext, List.dropWhile_cons_of_neg (by decide), Text.dropTailWhile_cons hslash,
    Text.dropTailWhile_cons hslash]
  simp [Text.cutAt, Line.beforeSlashes, Text.dropTailWhile]

/-! ## Lines of forms -/

/-- The line of a form. -/
def formLine (form : String) : String := "  " ++ form

/-- The line of a form, as characters. -/
theorem formLine_eq (form : String) :
    formLine form = String.ofList ([' ', ' '] ++ form.toList) := by
  rw [← String.toList_inj]
  simp [formLine]

/-- A form that can be written without opening a section. -/
structure Legible (form : String) : Prop where
  entry : IsEntry form.toList
  rule : Line.startsWith form "=" = false

/-- A form without two slashes in a row. -/
def Smooth (form : String) : Prop := ¬ ['/', '/'] <:+: form.toList

instance : DecidablePred Smooth := fun form =>
  inferInstanceAs (Decidable (¬ ['/', '/'] <:+: form.toList))

variable {form : String} {forms : List String}

/-- The line of a form without two slashes is cleaned to the form itself. -/
theorem Legible.clean_formLine (h : Legible form) (hsmooth : Smooth form) :
    Line.clean (formLine form) = form := by
  have hslashes : form.toList.IsChain fun a b => ¬(a = '/' ∧ b = '/') := by
    rw [List.isChain_iff_forall_rel_of_append_cons_cons]
    rintro a b before rest hform ⟨rfl, rfl⟩
    exact hsmooth ⟨before, rest, by rw [hform]; simp⟩
  have hseamless : Line.Seamless form.toList :=
    ⟨fun hc => (h.entry.calm _ hc).1 rfl, hslashes, fun hc => (h.entry.calm _ hc).2.1 rfl,
      fun hc => (h.entry.calm _ hc).2.2 rfl⟩
  -- the two blanks in front of a form are taken off with the line end
  have hindent : ∀ c ∈ [' ', ' '], c = ' ' := by simp
  rw [formLine_eq, Line.clean_append_of_ends hindent hseamless h.entry.first h.entry.last,
    String.ofList_toList]

/-- However much of a form is lost as a comment, its line opens no section. What is left of the line
is a beginning of the form, and the form does not begin with an equals sign. -/
theorem Legible.startsWith_clean_formLine (h : Legible form) :
    Line.startsWith (Line.clean (formLine form)) "=" = false := by
  have hform : (formLine form).toList.dropWhile (fun c => c == ' ' || c == '\t') = form.toList := by
    rw [formLine_eq, String.toList_ofList]
    show form.toList.dropWhile _ = form.toList
    refine Text.dropWhile_eq_self fun c hc => ?_
    simpa using h.entry.first c hc
  have hprefix := isPrefix_clean (formLine form)
  rw [hform] at hprefix
  rw [Bool.eq_false_iff]
  intro hrule
  have hstart := (List.isPrefixOf_iff_prefix.1 hrule).trans hprefix
  have hnot := h.rule
  rw [Line.startsWith, List.isPrefixOf_iff_prefix.2 hstart] at hnot
  cases hnot

/-- The line of a form has no line end in it. -/
theorem unbroken_formLine (h : IsEntry form.toList) :
    '\n' ∉ (formLine form).toList ∧ '\r' ∉ (formLine form).toList := by
  rw [formLine, String.toList_append]
  have hbreak := fun c hc => (h.calm c hc).2
  simp only [List.mem_append, not_or]
  exact ⟨⟨by decide, fun hc => (hbreak _ hc).1 rfl⟩, by decide, fun hc => (hbreak _ hc).2 rfl⟩

/-- Forms come to the end of the open section. -/
theorem collect_forms {name : String} (h : ∀ form ∈ forms, Legible form ∧ Smooth form) :
    collect wanted (some name) found (forms.map formLine ++ rest)
      = collect wanted (some name) (forms.foldl (fun ss form => ss.push name form) found) rest := by
  induction forms generalizing found with
  | nil => rfl
  | cons form forms ih =>
    obtain ⟨hlegible, hsmooth⟩ := h form (List.mem_cons_self ..)
    -- the line is no header and is not empty, so it is an entry of the section that is open
    have hne : form.isEmpty = false := by simpa using hlegible.entry.ne_nil
    rw [List.map_cons, List.cons_append, collect.eq_def]
    simp only [hlegible.clean_formLine hsmooth, hlegible.rule, hne, Bool.false_eq_true, if_false]
    exact ih fun other hother => h other (List.mem_cons_of_mem _ hother)

/-- Forms of a section that is not asked for are passed over. -/
theorem collect_forms_none (h : ∀ form ∈ forms, Legible form) :
    collect wanted none found (forms.map formLine ++ rest) = collect wanted none found rest := by
  induction forms with
  | nil => rfl
  | cons form forms ih =>
    have hrule := (h form (List.mem_cons_self ..)).startsWith_clean_formLine
    rw [List.map_cons, List.cons_append, collect.eq_def]
    simp only [hrule, Bool.false_eq_true, if_false]
    exact ih fun other hother => h other (List.mem_cons_of_mem _ hother)

/-! ## Sections that are written -/

variable {sections : Sections} {d : Derivation} {ds : List Derivation} {name t : String}

/-- The lines of a section of a derived lexicon. -/
def sectionLines (d : Derivation) (words : List String) : List String :=
  (if d.target = "ACT-S" then [commentLine "-----------------------------------------", ""] else [])
    ++ commentLine (d.comment ++ " (" ++ tagLabel d.tags ++ ")") :: "" :: Line.opening d.target
      :: (words.map formLine ++ ["", ""])

/-- A section is written line by line. -/
theorem sectionText_eq (d : Derivation) (words : List String) :
    sectionText d words = String.join ((sectionLines d words).map (· ++ "\n")) := by
  unfold sectionText sectionLines
  rw [← String.toList_inj]
  split <;>
    simp [String.toList_join, commentLine, Line.opening, formLine, List.flatMap_map, Function.comp_def]

/-- The derivations under which a section is written: those that are the first to lead to a section with
forms. -/
def leaders (sections : Sections) (written : List String) : List Derivation → List Derivation
  | [] => []
  | d :: rest =>
    if written.contains d.target || (sections.get d.target).isEmpty then leaders sections written rest
    else d :: leaders sections (d.target :: written) rest

/-- The sections that are written are those of the leaders, in their order. -/
theorem sectionTexts_eq (sections : Sections) (written : List String) (ds : List Derivation) :
    sectionTexts sections written ds
      = (leaders sections written ds).map fun d => sectionText d (sections.get d.target) := by
  induction ds generalizing written with
  | nil => rfl
  | cons d ds ih =>
    -- the first derivation to a section writes it, with the forms of all; later ones write nothing
    rw [sectionTexts, leaders]
    split
    · exact ih written
    · rw [List.map_cons, ih]

/-- The lines of the sections of a derived lexicon. -/
def leadersLines (sections : Sections) (written : List String) (ds : List Derivation) : List String :=
  (leaders sections written ds).flatMap fun d => sectionLines d (sections.get d.target)

/-- The texts of the sections one after the other are the lines of their leaders. -/
theorem join_sectionTexts (sections : Sections) (written : List String) (ds : List Derivation) :
    String.join (sectionTexts sections written ds)
      = String.join ((leadersLines sections written ds).map (· ++ "\n")) := by
  rw [sectionTexts_eq, leadersLines, ← String.toList_inj, String.toList_join, String.toList_join,
    List.flatMap_map, List.flatMap_map, List.flatMap_assoc]
  refine List.flatMap_congr fun d _ => ?_
  rw [sectionText_eq, String.toList_join, List.flatMap_map]

/-- The lines of a derived lexicon. -/
def derivedLines (name : String) (sections : Sections) : List String :=
  commentLine ("forms derived from grammar: " ++ name)
    :: commentLine "================================================" :: ""
    :: leadersLines sections [] derivations

/-- The text of a derived lexicon is its lines, each with a line feed behind it. The two comments
and the blank line on top are written out in the one and counted as lines in the other. -/
theorem derivedText_eq (name : String) (sections : Sections) :
    derivedText name sections = String.join ((derivedLines name sections).map (· ++ "\n")) := by
  have hjoin : ∀ body : List String,
      "// forms derived from grammar: " ++ name ++ "\n"
          ++ "// ================================================\n\n"
          ++ String.join (body.map (· ++ "\n"))
        = String.join ((commentLine ("forms derived from grammar: " ++ name)
          :: commentLine "================================================" :: "" :: body).map
            (· ++ "\n")) := by
    intro body
    rw [← String.toList_inj]
    simp [commentLine, String.toList_join]
  unfold derivedText derivedLines
  rw [join_sectionTexts]
  exact hjoin _

/-- The leaders are some of the derivations. -/
theorem mem_of_mem_leaders {written : List String} (h : d ∈ leaders sections written ds) : d ∈ ds := by
  induction ds generalizing written with
  | nil => exact h
  | cons first ds ih =>
    rw [leaders] at h
    split at h
    · exact List.mem_cons_of_mem _ (ih h)
    · exact (List.mem_cons.1 h).elim (fun heq => heq ▸ List.mem_cons_self ..)
        fun h => List.mem_cons_of_mem _ (ih h)

/-- The sections of a derived lexicon can be opened. -/
theorem opens_of_mem_derivations (h : d ∈ derivations) :
    Line.Opens d.target ∧ Text.upper d.target = d.target := by
  have hall : ∀ d ∈ derivations, (Line.Seamless d.target.toList ∧ d.target ≠ ""
      ∧ Text.trim d.target = d.target ∧ d.target.toList.all (fun c => c != ']' && c != '>')
      ∧ Line.isIrregularHead d.target = false) ∧ Text.upper d.target = d.target := by
    decide +kernel
  obtain ⟨⟨hseamless, hne, htrim, hunclosed, hregular⟩, hupper⟩ := hall d h
  exact ⟨⟨hseamless, hne, htrim, by simpa using hunclosed, hregular⟩, hupper⟩

theorem unbroken_commentLine {text : String} (h : '\n' ∉ text.toList ∧ '\r' ∉ text.toList) :
    '\n' ∉ (commentLine text).toList ∧ '\r' ∉ (commentLine text).toList := by
  simpa [commentLine] using h

/-- The lines of a section have no line breaks in them. The comments are fixed texts, and the forms
have none since they are entries. -/
theorem unbroken_sectionLines (hd : d ∈ derivations) {words : List String}
    (hwords : ∀ form ∈ words, IsEntry form.toList) :
    ∀ line ∈ sectionLines d words, '\n' ∉ line.toList ∧ '\r' ∉ line.toList := by
  -- the comment above a section and the tags of its derivation
  have hcomment : ∀ d ∈ derivations, '\n' ∉ (d.comment ++ " (" ++ tagLabel d.tags ++ ")").toList
      ∧ '\r' ∉ (d.comment ++ " (" ++ tagLabel d.tags ++ ")").toList := by
    decide +kernel
  have hrest : ∀ line ∈ [commentLine "-----------------------------------------", ""],
      '\n' ∉ line.toList ∧ '\r' ∉ line.toList := by
    decide
  have hopening := (opens_of_mem_derivations hd).1.seamless_opening
  intro line hline
  rcases List.mem_append.1 hline with hline | hline
  · split at hline
    · exact hrest line hline
    · cases hline
  · rcases List.mem_cons.1 hline with rfl | hline
    · exact unbroken_commentLine (hcomment d hd)
    · rcases List.mem_cons.1 hline with rfl | hline
      · decide
      · rcases List.mem_cons.1 hline with rfl | hline
        · exact ⟨hopening.lineFeed, hopening.carriageReturn⟩
        · rcases List.mem_append.1 hline with hline | hline
          · obtain ⟨form, hform, rfl⟩ := List.mem_map.1 hline
            exact unbroken_formLine (hwords form hform)
          · exact hrest line (List.mem_cons_of_mem _ (by simpa using hline))

/-- A derived lexicon is cut into its lines. -/
theorem lines_derivedText (hname : '\n' ∉ name.toList ∧ '\r' ∉ name.toList)
    (hforms : ∀ t, ∀ form ∈ sections.get t, IsEntry form.toList) :
    Text.lines (derivedText name sections) = derivedLines name sections := by
  rw [derivedText_eq]
  refine Text.lines_join fun line hline => ?_
  unfold derivedLines at hline
  -- two comments and an empty line stand in front of the sections
  rcases List.mem_cons.1 hline with rfl | hline
  · apply unbroken_commentLine
    simpa using hname
  · rcases List.mem_cons.1 hline with rfl | hline
    · decide
    · rcases List.mem_cons.1 hline with rfl | hline
      · decide
      · obtain ⟨d, hd, hline⟩ := List.mem_flatMap.1 hline
        exact unbroken_sectionLines (mem_of_mem_leaders hd) (hforms d.target) line hline

/-! ## Sections that are read -/

/-- The lines of a section add its forms, if it is asked for. If it is not, they are passed over,
and in both cases the sections after it start afresh. -/
theorem exists_collect_sectionLines {words : List String} (hopens : Line.Opens d.target)
    (hupper : Text.upper d.target = d.target)
    (hwords : ∀ form ∈ words, Legible form ∧ (d.target ∈ wanted → Smooth form))
    (current : Option String) (found : Sections) (rest : List String) :
    ∃ current' found', collect wanted current found (sectionLines d words ++ rest)
        = collect wanted current' found' rest
      ∧ ∀ t, found'.get t
        = if t = d.target ∧ d.target ∈ wanted then found.get t ++ words else found.get t := by
  have hblank : Line.clean "" = "" := by decide
  have hstart : collect wanted current found (sectionLines d words ++ rest)
      = collect wanted (if wanted.contains d.target then some d.target else none) found
        (words.map formLine ++ "" :: "" :: rest) := by
    unfold sectionLines
    split <;>
      simp only [List.nil_append, List.cons_append, List.append_assoc, collect_skip (clean_commentLine _),
        collect_skip hblank, collect_opening hopens hupper]
  -- the lines of a section that is not asked for are passed over
  by_cases hwanted : d.target ∈ wanted
  · refine ⟨some d.target, words.foldl (fun ss form => ss.push d.target form) found, ?_, fun t => ?_⟩
    · rw [hstart, if_pos (by simpa using hwanted),
        collect_forms fun form hform => ⟨(hwords form hform).1, (hwords form hform).2 hwanted⟩,
        collect_skip hblank, collect_skip hblank]
    · rw [Sections.get_foldl_push]
      simp [hwanted]
  · refine ⟨none, found, ?_, fun t => ?_⟩
    · rw [hstart, if_neg (by simpa using hwanted),
        collect_forms_none fun form hform => (hwords form hform).1, collect_skip hblank,
        collect_skip hblank]
    · rw [if_neg fun h : t = d.target ∧ d.target ∈ wanted => hwanted h.2]

/-- Every section is written once, so what is read is what it has. The invariant is about which
sections have been written so far: what has been is not read a second time. -/
theorem get_collect_leadersLines
    (hds : ∀ d ∈ ds, Line.Opens d.target ∧ Text.upper d.target = d.target)
    (hforms : ∀ d ∈ ds, ∀ form ∈ sections.get d.target,
      Legible form ∧ (d.target ∈ wanted → Smooth form))
    (ht : t ∈ wanted) (written : List String) (current : Option String) (found : Sections) :
    (collect wanted current found (leadersLines sections written ds)).get t
      = if t ∉ written ∧ t ∈ ds.map (·.target) then found.get t ++ sections.get t else found.get t := by
  -- by induction on the derivations, as the function that writes them goes through them
  induction ds generalizing written current found with
  | nil => simp [leadersLines, leaders, collect]
  | cons d ds ih =>
    have ih := ih (fun d hd => hds d (List.mem_cons_of_mem _ hd))
      (fun d hd => hforms d (List.mem_cons_of_mem _ hd))
    rw [leadersLines, leaders, List.map_cons]
    split
    · rename_i hskip
      show (collect wanted current found (leadersLines sections written ds)).get t = _
      rw [ih]
      rw [Bool.or_eq_true, List.contains_iff_mem, List.isEmpty_iff] at hskip
      by_cases htarget : t = d.target
      · -- it is written already, or there is nothing to write
        subst htarget
        rcases hskip with hwritten | hempty
        · simp [hwritten]
        · simp [hempty]
      · simp [htarget]
    · rename_i hfirst
      simp only [Bool.or_eq_true, List.contains_iff_mem, not_or] at hfirst
      obtain ⟨hopens, hupper⟩ := hds d (List.mem_cons_self ..)
      obtain ⟨current', found', hlines, hfound⟩ := exists_collect_sectionLines hopens hupper
        (hforms d (List.mem_cons_self ..)) current found (leadersLines sections (d.target :: written) ds)
      rw [List.flatMap_cons, ← leadersLines, hlines, ih, hfound]
      by_cases htarget : t = d.target
      · subst htarget
        simp [hfirst.1, ht]
      · simp [htarget]

/-- What is read for a head in a derived lexicon is what was derived. -/
theorem get_collect_derivedLines
    (hforms : ∀ t, ∀ form ∈ sections.get t, Legible form ∧ (t ∈ wanted → Smooth form))
    (ht : t ∈ wanted) (htarget : t ∈ derivations.map (·.target)) :
    (collect wanted none [] (derivedLines name sections)).get t = sections.get t := by
  have hcomments : ∀ first second body, collect wanted none [] (commentLine first
      :: commentLine second :: "" :: body) = collect wanted none [] body := by
    intro first second body
    rw [collect_skip (clean_commentLine _), collect_skip (clean_commentLine _), collect_skip (by decide)]
  unfold derivedLines
  rw [hcomments]
  -- no section is open and nothing has been found when the first header comes
  refine (get_collect_leadersLines (fun d hd => opens_of_mem_derivations hd)
    (fun d _ => hforms d.target) ht [] none []).trans ?_
  rw [if_pos ⟨List.not_mem_nil, htarget⟩]
  exact List.nil_append _

end Utterance.Lexicon
