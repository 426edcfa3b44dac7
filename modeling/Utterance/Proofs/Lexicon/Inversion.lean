import Utterance.Proofs.Lexicon.Sections
import Utterance.Proofs.Storage

/-!
# Derived lexicons that can be inverted

If a derivation was checked and has no problem, each word and its form lead to each other. So words with
the same form are the same word, and a form that is not repeated in its section stands for one word that
is not repeated either. A derived lexicon holds the forms as they are, unless one of them looks like a
comment or like the line of a head. So the words come back when its sections are inverted.
-/

namespace Utterance.Lexicon

variable {m : Irregulars} {tags : Tags} {bases forms : Sections} {t word form : String}
  {words : List String} {d : Derivation} {i : Inversion} {r report : Report}

/-! ## Words and forms that lead to each other -/

/-- A further member counts if it is not there yet. -/
theorem eraseDups_concat (xs : List String) (x : String) :
    (xs ++ [x]).eraseDups = if x ∈ xs then xs.eraseDups else xs.eraseDups ++ [x] := by
  rw [List.eraseDups_append]
  split
  · rename_i h
    simp [List.removeAll, h]
  · rename_i h
    simp [List.removeAll, h, List.eraseDups_cons]

/-- A word and its form that lead to each other. -/
structure Pairs (m : Irregulars) (tags : Tags) (word form : String) : Prop where
  there : m.form word tags = some form
  back : m.baseForm form tags = some word

/-- The words of forms without repetitions are the words without repetitions. Since words and forms
lead to each other, a form is repeated just where a word is. -/
theorem filterMap_baseForm_eraseDups (h : ∀ word ∈ words, ∃ form, Pairs m tags word form) :
    ((words.filterMap (m.form · tags)).eraseDups).filterMap (m.baseForm · tags) = words.eraseDups := by
  induction words using List.reverseRecOn with
  | nil => rfl
  | append_singleton words word ih =>
    have hwords := fun other hother => h other (List.mem_append_left [word] hother)
    obtain ⟨form, hpair⟩ := h word (List.mem_append_right words (List.mem_singleton.2 rfl))
    -- the form is there before if and only if the word is
    have hmem : form ∈ words.filterMap (m.form · tags) ↔ word ∈ words := by
      rw [List.mem_filterMap]
      constructor
      · rintro ⟨other, hother, hform⟩
        obtain ⟨form', hpair'⟩ := hwords other hother
        obtain rfl := Option.some.inj (hpair'.there.symm.trans hform)
        rwa [Option.some.inj (hpair.back.symm.trans hpair'.back)]
      · exact fun hword => ⟨word, hword, hpair.there⟩
    have hthere : [word].filterMap (m.form · tags) = [form] := by simp [hpair.there]
    have hback : [form].filterMap (m.baseForm · tags) = [word] := by simp [hpair.back]
    rw [List.filterMap_append, hthere, eraseDups_concat, eraseDups_concat]
    simp only [hmem]
    split
    · exact ih hwords
    · rw [List.filterMap_append, ih hwords, hback]

/-! ## Derivations without problems -/

/-- A word adds no problem only if it and its form lead to each other. The report has been checked,
so a word without a form is a problem, and so is a form that leads back to another word. -/
theorem deriveWord_of_problems_eq_nil (h : (deriveWord m true d r word).problems = []) :
    r.problems = [] ∧ ∃ form, Pairs m d.tags word form
      ∧ (deriveWord m true d r word).sections = r.sections.pushNew d.target form := by
  unfold deriveWord at h ⊢
  cases hform : m.form word d.tags with
  | none =>
    simp only [hform, Report.problem] at h
    exact absurd h (by simp)
  | some form =>
    simp only [hform, Bool.true_and] at h ⊢
    by_cases hback : (m.baseForm form d.tags != some word) = true
    · rw [if_pos hback] at h
      exact absurd h (by simp [Report.problem])
    · rw [if_neg hback] at h ⊢
      exact ⟨h, form, ⟨hform, by simpa using hback⟩, rfl⟩

/-- The forms of some jobs that go to a section. -/
def formsTo (m : Irregulars) (t : String) (todo : List (Derivation × String)) : List String :=
  (todo.filter (·.1.target == t)).filterMap fun job => m.form job.2 job.1.tags

/-- Without problems all words and forms lead to each other, and the sections hold the forms without
repetitions. -/
theorem foldl_deriveWord_of_problems_eq_nil {todo : List (Derivation × String)}
    (h : (todo.foldl (fun r job => deriveWord m true job.1 r job.2) {}).problems = []) :
    (∀ job ∈ todo, ∃ form, Pairs m job.1.tags job.2 form)
      ∧ ∀ t, (todo.foldl (fun r job => deriveWord m true job.1 r job.2) {}).sections.get t
        = (formsTo m t todo).eraseDups := by
  -- problems are never taken back, so there was none before the last word either
  induction todo using List.reverseRecOn with
  | nil => exact ⟨fun _ hjob => absurd hjob List.not_mem_nil, fun _ => rfl⟩
  | append_singleton todo job ih =>
    rw [List.foldl_append, List.foldl_cons, List.foldl_nil] at h ⊢
    obtain ⟨hbefore, form, hpair, hsections⟩ := deriveWord_of_problems_eq_nil h
    obtain ⟨hpairs, hget⟩ := ih hbefore
    refine ⟨fun other hother => ?_, fun t => ?_⟩
    · rcases List.mem_append.1 hother with hother | hother
      · exact hpairs other hother
      · rw [List.mem_singleton.1 hother]
        exact ⟨form, hpair⟩
    · rw [hsections, Sections.get_pushNew, hget]
      by_cases ht : t = job.1.target
      · have hforms : formsTo m t (todo ++ [job]) = formsTo m t todo ++ [form] := by
          simp [formsTo, List.filter_append, ht, hpair.there]
        rw [hforms, eraseDups_concat]
        simp [ht]
      · have hforms : formsTo m t (todo ++ [job]) = formsTo m t todo := by
          simp [formsTo, List.filter_append, Ne.symm ht]
        rw [hforms, if_neg fun h => ht h.1]

/-- The jobs that go to a section, in the order of the derivations. Several derivations may go to
one section, and then its words come from several heads. -/
theorem filter_jobs (bases : Sections) (t : String) :
    (jobs bases).filter (·.1.target == t)
      = (derivations.filter (·.target == t)).flatMap
        fun d => (bases.get d.source).map fun word => (d, word) := by
  unfold jobs
  generalize derivations = ds
  induction ds with
  | nil => rfl
  | cons d ds ih =>
    rw [List.flatMap_cons, List.filter_append, ih, List.filter_map]
    by_cases ht : d.target = t
    · simp [ht, Function.comp_def]
    · simp [ht, Function.comp_def]

/-! ## Inversions without problems -/

/-- A form that leads to a word and back is inverted without a problem. -/
theorem invertWord_of_pairs (h : Pairs m i.tags word form) (r : Report) :
    invertWord m true i r form = { r with sections := r.sections.push i.source word } := by
  unfold invertWord
  simp [h.there, h.back]

/-- Forms that lead to words and back add the words and no problems. A word is added even if it is
there already. -/
theorem foldl_invertWord_of_pairs (h : ∀ form ∈ words, ∃ word, Pairs m i.tags word form) (r : Report) :
    words.foldl (invertWord m true i) r
      = ⟨(words.filterMap (m.baseForm · i.tags)).foldl (fun ss word => ss.push i.source word) r.sections,
        r.problems⟩ := by
  induction words generalizing r with
  | nil => rfl
  | cons form words ih =>
    obtain ⟨word, hpair⟩ := h form (List.mem_cons_self ..)
    -- the words are those that the forms lead to, in the order of the forms
    have hback : (form :: words).filterMap (m.baseForm · i.tags)
        = word :: words.filterMap (m.baseForm · i.tags) := by
      simp [hpair.back]
    rw [List.foldl_cons, invertWord_of_pairs hpair,
      ih fun other hother => h other (List.mem_cons_of_mem _ hother), hback]
    rfl

namespace Sections

/-- An entry is put into the section that has its name, wherever that stands. -/
theorem push_append {ss : Sections} {name : String} (h : name ∉ ss.map Prod.fst) (rest : Sections)
    (entry : String) : push name entry (ss ++ rest) = ss ++ rest.push name entry := by
  induction ss with
  | nil => rfl
  | cons first ss ih =>
    obtain ⟨n, es⟩ := first
    rw [List.map_cons, List.mem_cons, not_or] at h
    rw [List.cons_append, push, if_neg (Ne.symm h.1), ih h.2]
    rfl

/-- Entries are put at the end of a section that is there. -/
theorem foldl_push_append {ss : Sections} {name : String} (h : name ∉ ss.map Prod.fst)
    (entries first : List String) :
    entries.foldl (fun ss entry => ss.push name entry) (ss ++ [(name, first)])
      = ss ++ [(name, first ++ entries)] := by
  induction entries generalizing first with
  | nil => simp
  | cons entry entries ih =>
    have hpush : push name entry [(name, first)] = [(name, first ++ [entry])] := by simp [push]
    rw [List.foldl_cons, push_append h, hpush, ih, List.append_assoc, List.singleton_append]

/-- The entries of a new section, if there are any, open it. Without entries no section is opened,
which is why the empty one is filtered out. -/
theorem foldl_push_of_not_mem {ss : Sections} {name : String} (h : name ∉ ss.map Prod.fst)
    (entries : List String) :
    entries.foldl (fun ss entry => ss.push name entry) ss
      = ss ++ [(name, entries)].filter (!·.2.isEmpty) := by
  cases entries with
  | nil => simp
  | cons entry entries =>
    have hpush : push name entry ss = ss ++ [(name, [entry])] := by
      have happend := push_append h [] entry
      rwa [List.append_nil] at happend
    rw [List.foldl_cons, hpush, foldl_push_append h]
    simp

/-- Sections with different names come one after the other. -/
theorem foldl_foldl_push {ss groups : Sections} (h : ((ss ++ groups).map Prod.fst).Nodup) :
    groups.foldl (fun ss group => group.2.foldl (fun ss entry => ss.push group.1 entry) ss) ss
      = ss ++ groups.filter (!·.2.isEmpty) := by
  -- each group opens a section of its own behind those that are there
  induction groups generalizing ss with
  | nil => simp
  | cons group groups ih =>
    have hnew : group.1 ∉ ss.map Prod.fst := by
      rw [List.map_append, List.map_cons, List.nodup_append] at h
      exact fun hmem => h.2.2 _ hmem _ (List.mem_cons_self ..) rfl
    have hsub : (ss ++ [group].filter (!·.2.isEmpty) ++ groups).Sublist (ss ++ group :: groups) := by
      rw [List.append_assoc]
      exact (List.Sublist.refl ss).append ((List.filter_sublist (l := [group])).append (.refl groups))
    rw [List.foldl_cons, foldl_push_of_not_mem hnew, ih (h.sublist (hsub.map Prod.fst)), List.append_assoc,
      ← List.filter_append, List.singleton_append]

end Sections

/-- Inversions of forms that lead to words and back have no problems. -/
theorem foldl_invert_of_pairs {is : List Inversion}
    (h : ∀ i ∈ is, ∀ form ∈ forms.get i.source, ∃ word, Pairs m i.tags word form) (ss : Sections) :
    is.foldl (fun r i => (forms.get i.source).foldl (invertWord m true i) r) ⟨ss, []⟩
      = ⟨is.foldl (fun ss i => ((forms.get i.source).filterMap (m.baseForm · i.tags)).foldl
          (fun ss word => ss.push i.source word) ss) ss, []⟩ := by
  induction is generalizing ss with
  | nil => rfl
  | cons i is ih =>
    rw [List.foldl_cons, foldl_invertWord_of_pairs (h i (List.mem_cons_self ..)),
      ih fun other hother => h other (List.mem_cons_of_mem _ hother)]
    rfl

/-! ## There and back -/

/-- The section that the words of an inverted section come from. -/
def originOf (i : Inversion) : String :=
  ((derivations.find? (·.target == i.source)).map (·.source)).getD ""

/-- The sections that words come from, and the sections that are inverted to get them back. -/
def origins : List (String × String) :=
  [("AKO", "AKO-S"), ("HQ", "HQ-ER"), ("HQ", "HQ-EST"), ("ACT", "ACT-S"), ("ACT", "ACT-G"),
    ("ACT", "ACT-D")]

/-- Each inversion undoes the only derivation that leads to its section. -/
theorem exists_derivation_of_mem_inversions (h : i ∈ inversions) :
    ∃ d, derivations.filter (·.target == i.source) = [d] ∧ d.tags = i.tags ∧ d.source = originOf i := by
  simp only [inversions, List.mem_cons, List.not_mem_nil, or_false] at h
  rcases h with rfl | rfl | rfl | rfl | rfl | rfl <;> exact ⟨_, rfl, rfl, rfl⟩

/-- What is derived for an inversion. -/
theorem formsTo_jobs (hi : i ∈ inversions) :
    formsTo m i.source (jobs bases) = (bases.get (originOf i)).filterMap (m.form · i.tags) := by
  obtain ⟨d, hd, htags, hsource⟩ := exists_derivation_of_mem_inversions hi
  rw [formsTo, filter_jobs, hd, ← htags, ← hsource, List.flatMap_singleton, List.filterMap_map]
  rfl

/-- There is a job for each word that an inversion is to get back. -/
theorem mem_jobs (hi : i ∈ inversions) (hword : word ∈ bases.get (originOf i)) :
    ∃ job ∈ jobs bases, job.1.tags = i.tags ∧ job.2 = word := by
  obtain ⟨d, hd, htags, hsource⟩ := exists_derivation_of_mem_inversions hi
  have hmem : d ∈ derivations.filter (·.target == i.source) := by
    rw [hd]
    exact List.mem_singleton.2 rfl
  rw [← hsource] at hword
  exact ⟨(d, word), List.mem_flatMap.2 ⟨d, (List.mem_filter.1 hmem).1, List.mem_map_of_mem hword⟩, htags,
    rfl⟩

/-- Forms that were derived without a problem are inverted without one, and the words come back
without repetitions. This is the heart of the round trip: what remains is that writing and reading
the file give the same sections. -/
theorem invert_of_derive {progress : Bool} (h : (derive m bases true progress).1.problems = [])
    (hforms : ∀ i ∈ inversions,
      forms.get i.source = (derive m bases true progress).1.sections.get i.source) :
    (invert m forms true).1 = ⟨(origins.map fun (source, target) =>
      (target, (bases.get source).eraseDups)).filter (!·.2.isEmpty), []⟩ := by
  obtain ⟨hpairs, hget⟩ := @foldl_deriveWord_of_problems_eq_nil m (jobs bases) h
  have hwords : ∀ i ∈ inversions, ∀ word ∈ bases.get (originOf i), ∃ form, Pairs m i.tags word form := by
    intro i hi word hword
    obtain ⟨job, hjob, htags, rfl⟩ := mem_jobs hi hword
    rw [← htags]
    exact hpairs job hjob
  have hsection : ∀ i ∈ inversions, forms.get i.source
      = ((bases.get (originOf i)).filterMap (m.form · i.tags)).eraseDups := by
    intro i hi
    rw [hforms i hi, ← formsTo_jobs hi]
    exact hget i.source
  have hback : ∀ i ∈ inversions, ∀ form ∈ forms.get i.source, ∃ word, Pairs m i.tags word form := by
    intro i hi form hform
    rw [hsection i hi, List.mem_eraseDups, List.mem_filterMap] at hform
    obtain ⟨word, hword, hthere⟩ := hform
    obtain ⟨form', hpair⟩ := hwords i hi word hword
    obtain rfl := Option.some.inj (hpair.there.symm.trans hthere)
    exact ⟨word, hpair⟩
  -- section by section, the words that come back are those that the section came from
  have hentries : inversions.map (fun i =>
      (i.source, (forms.get i.source).filterMap (m.baseForm · i.tags)))
        = origins.map fun (source, target) => (target, (bases.get source).eraseDups) := by
    have horigins : origins = inversions.map fun i => (originOf i, i.source) := rfl
    rw [horigins, List.map_map]
    refine List.map_congr_left fun i hi => ?_
    rw [hsection i hi, filterMap_baseForm_eraseDups (hwords i hi)]
    rfl
  -- no section is named twice, so gathering them one after another keeps them apart
  have hnames : ((([] : Sections) ++ inversions.map fun i =>
      (i.source, (forms.get i.source).filterMap (m.baseForm · i.tags))).map Prod.fst).Nodup := by
    rw [List.nil_append, List.map_map]
    show (inversions.map (·.source)).Nodup
    decide
  have hinvert : (invert m forms true).1 = _ := foldl_invert_of_pairs hback []
  rw [hinvert, ← hentries]
  congr 1
  exact List.foldl_map.symm.trans (Sections.foldl_foldl_push hnames)

/-! ## Files -/

variable {files files' : Files} {base out : Path} {route : Route} {progress : Bool}

/-- The words of a lexicon are entries, as they were left of its lines. The lines of a file have no
line breaks, and cleaning takes the rest away that an entry must not have. -/
theorem isEntry_of_readSections {heads : List String} (h : readSections files route heads = .ok bases) :
    ∀ t, ∀ word ∈ bases.get t, IsEntry word.toList := by
  unfold readSections at h
  cases hread : files.read route with
  | error e =>
    rw [hread] at h
    cases h
  | ok content =>
    cases hlines : content.lines with
    | error e =>
      simp only [hread, bind, Except.bind, hlines] at h
      cases h
    | ok lines =>
      simp only [hread, bind, Except.bind, hlines] at h
      cases h
      intro t word hword
      rcases mem_get_collect hword with hnone | ⟨raw, hraw, rfl, hne, _⟩
      · cases hnone
      · exact isEntry_clean (unbroken_of_lines hlines raw hraw) hne

/-- So are the forms that are derived from them. -/
theorem isEntry_of_derive (hm : m.Fits) (hbases : ∀ t, ∀ word ∈ bases.get t, IsEntry word.toList)
    (h : (derive m bases true progress).1.problems = []) :
    ∀ t, ∀ form ∈ (derive m bases true progress).1.sections.get t, IsEntry form.toList := by
  intro t form hform
  -- a report without problems has nothing but forms that jobs have made, each from a base word
  obtain ⟨_, hget⟩ := @foldl_deriveWord_of_problems_eq_nil m (jobs bases) h
  have hmem : form ∈ (formsTo m t (jobs bases)).eraseDups := by
    rw [← hget]
    exact hform
  obtain ⟨job, hjob, hmade⟩ := List.mem_filterMap.1 (List.mem_eraseDups.1 hmem)
  obtain ⟨d, _, hjobs⟩ := List.mem_flatMap.1 (List.mem_filter.1 hjob).1
  obtain ⟨word, hword, rfl⟩ := List.mem_map.1 hjobs
  exact Irregulars.isEntry_form hm (hbases d.source word hword) hmade

/-- A checked table is that of the lexicon file. -/
theorem fits_prepare {route : Route} (h : (prepare m files route true).result = .ok ()) :
    (prepare m files route true).state.Fits := by
  unfold prepare at h ⊢
  simp only [if_true] at h ⊢
  cases hloaded : (m.load files route false).result with
  | error e =>
    rw [hloaded] at h
    cases h
  | ok count =>
    cases count with
    | none =>
      rw [hloaded] at h
      cases h
    | some count => exact Irregulars.fits_load hloaded

/-- What was written is what was derived from the words of the lexicon file with its irregular
forms. Each of the files was opened, or there would be no report. -/
theorem exists_of_writeDerived (h : (writeDerived m files base out true progress).result = .ok report) :
    ∃ m' bases files', m'.Fits ∧ readSections files (.ofPath base) sources = .ok bases
      ∧ report = (derive m' bases true progress).1
      ∧ files.write (.ofPath out) (derivedText base.name report.sections) = .ok files'
      ∧ (writeDerived m files base out true progress).state = (m', files') := by
  unfold writeDerived deriveFile at h ⊢
  simp only at h ⊢
  cases hprepared : (prepare m files (.ofPath base) true).result with
  | error e =>
    simp only [hprepared] at h
    cases h
  | ok u =>
    cases hbases : readSections files (.ofPath base) sources with
    | error e =>
      simp only [hprepared, hbases] at h
      cases h
    | ok bases =>
      simp only [hprepared, hbases] at h ⊢
      generalize hreport : (derive (prepare m files (.ofPath base) true).state bases true progress).1
        = derived at h ⊢
      unfold writeReport at h ⊢
      -- a report is only given if the forms could be written
      cases hwrite : files.write (.ofPath out) (derivedText base.name derived.sections) with
      | error e =>
        simp only [hwrite] at h
        cases h
      | ok files' =>
        simp only [hwrite] at h ⊢
        cases h
        exact ⟨_, bases, files', fits_prepare hprepared, rfl, hreport.symm, hwrite, rfl⟩

/-- A derived lexicon is read line by line, since neither its name nor its forms contain a line end. -/
theorem readForms_derivedText {name : String} {sections : Sections}
    (hread : files.read route = .ok (.text (derivedText name sections)))
    (hname : '\n' ∉ name.toList ∧ '\r' ∉ name.toList)
    (hforms : ∀ t, ∀ form ∈ sections.get t, IsEntry form.toList) :
    readForms files route
      = .ok (collect (inversions.map (·.source)) none [] (derivedLines name sections)) := by
  have hlines : (Content.text (derivedText name sections)).lines = .ok (derivedLines name sections) :=
    congrArg Except.ok (lines_derivedText hname hforms)
  -- heads are compared in capitals, and the heads of the inversions are written so
  have hupper : (inversions.map (·.source)).map Text.upper = inversions.map (·.source) := by
    decide
  unfold readForms readSections
  simp only [hread, bind, Except.bind, hlines, hupper]
  rfl

/-- After a derivation without problems the written file is read line by line. The file that is read
may be named in another way, as long as what is read there is what was written. -/
theorem readForms_writeDerived
    (hwritten : (writeDerived m files base out true progress).result = .ok report)
    (hclean : report.errors = 0) (hname : '\n' ∉ base.name.toList ∧ '\r' ∉ base.name.toList)
    (hroute : (writeDerived m files base out true progress).state.2.read route
      = (writeDerived m files base out true progress).state.2.read (.ofPath out)) :
    readForms (writeDerived m files base out true progress).state.2 route
      = .ok (collect (inversions.map (·.source)) none [] (derivedLines base.name report.sections)) := by
  obtain ⟨m', bases, files', hfits, hbases, rfl, hwrite, hstate⟩ := exists_of_writeDerived hwritten
  rw [hstate] at hroute ⊢
  exact readForms_derivedText (hroute.trans (Files.read_of_write_same hwrite)) hname
    (isEntry_of_derive hfits (isEntry_of_readSections hbases) (List.length_eq_zero_iff.1 hclean))

/-- The sections of a derived lexicon are read as they were derived. -/
theorem get_collect_inversions (name : String) {sections : Sections}
    (hforms : ∀ t, ∀ form ∈ sections.get t, Legible form)
    (hsmooth : ∀ i ∈ inversions, ∀ form ∈ sections.get i.source, Smooth form) :
    ∀ i ∈ inversions, (collect (inversions.map (·.source)) none [] (derivedLines name sections)).get
      i.source = sections.get i.source := by
  have htargets : ∀ i ∈ inversions, i.source ∈ derivations.map (·.target) := by
    decide
  intro i hi
  refine get_collect_derivedLines (fun t form hform => ⟨hforms t form hform, fun ht => ?_⟩)
    (List.mem_map_of_mem hi) (htargets i hi)
  obtain ⟨i', hi', rfl⟩ := List.mem_map.1 ht
  exact hsmooth i' hi' form hform

/-- If a derivation was checked and has no problem, no form looks like the line of a head or holds two
slashes, and the name of the lexicon file goes into one line, then inverting the derived lexicon has no
problem either and gives the words back, in order and without repetitions. It does not matter how the
written file is spelled when it is opened. -/
theorem invertFile_writeDerived
    (hwritten : (writeDerived m files base out true progress).result = .ok report)
    (hclean : report.errors = 0) (hname : '\n' ∉ base.name.toList ∧ '\r' ∉ base.name.toList)
    (hrule : ∀ s ∈ report.sections, ∀ form ∈ s.2, Line.startsWith form "=" = false)
    (hsmooth : ∀ i ∈ inversions, ∀ form ∈ report.sections.get i.source, Smooth form)
    (hroute : (writeDerived m files base out true progress).state.2.read route
      = (writeDerived m files base out true progress).state.2.read (.ofPath out)) :
    let engine := (writeDerived m files base out true progress).state
    ∃ bases back, readSections files (.ofPath base) sources = .ok bases
      ∧ (invertFile engine.1 engine.2 route true none).result = .ok back
      ∧ back.errors = 0
      ∧ back.sections = (origins.map fun (source, target) =>
          (target, (bases.get source).eraseDups)).filter (!·.2.isEmpty) := by
  intro engine
  have hforms := readForms_writeDerived hwritten hclean hname hroute
  obtain ⟨m', bases, files', hfits, hbases, rfl, hwrite, hstate⟩ := exists_of_writeDerived hwritten
  have hproblems := List.length_eq_zero_iff.1 hclean
  -- the forms are entries, so their lines are read back as they were written
  have hentries := isEntry_of_derive hfits (isEntry_of_readSections hbases) hproblems
  have hinverted := invert_of_derive hproblems (get_collect_inversions base.name
    (fun t form hform => ⟨hentries t form hform, by
      obtain ⟨s, hs, hmem⟩ := Sections.exists_of_mem_get hform
      exact hrule s hs form hmem⟩) hsmooth)
  refine ⟨bases, _, hbases, ?_, ?_, congrArg Report.sections hinverted⟩
  · show (invertFile (writeDerived m files base out true progress).state.1
      (writeDerived m files base out true progress).state.2 route true none).result = _
    unfold invertFile
    simp only [hforms]
    rw [hstate]
    rfl
  · exact congrArg Report.errors hinverted

/-- What is asked of the value of a computation can be decided by running it. -/
instance decidableExistsOk {ε α : Type} (x : Except ε α) (P : α → Prop) [DecidablePred P] :
    Decidable (∃ a, x = .ok a ∧ P a) :=
  match x with
  | .ok a => decidable_of_iff (P a) ⟨fun h => ⟨a, rfl, h⟩, fun ⟨_, heq, h⟩ => by cases heq; exact h⟩
  | .error _ => .isFalse fun ⟨_, heq, _⟩ => nomatch heq

/-- A lexicon with a repeated word and an irregular form. -/
def dogFile : Files :=
  { entries := [(["lex.sgm"],
      .text "=[AKO]\n  dog\n  man\n  dog\n=[XXX-morph]\n  man * npl = men\n=[ACT]\n  stop // it\n")] }

/-- A noun that is written twice, an irregular one and a verb whose consonant is doubled come back. -/
theorem invertFile_writeDerived_dog :
    let engine := (writeDerived {} dogFile (.ofString "lex.sgm") (.ofString "out.sgm") true false).state
    ∃ back, (invertFile engine.1 engine.2 (.ofString "out.sgm") true none).result = .ok back
      ∧ back.errors = 0
      ∧ back.sections
        = [("AKO-S", ["dog", "man"]), ("ACT-S", ["stop"]), ("ACT-G", ["stop"]), ("ACT-D", ["stop"])] := by
  intro engine
  obtain ⟨report, hwritten, hclean, hrule, hsmooth⟩ : ∃ report,
      (writeDerived {} dogFile (.ofString "lex.sgm") (.ofString "out.sgm") true false).result = .ok report
        ∧ report.errors = 0
        ∧ (∀ s ∈ report.sections, ∀ form ∈ s.2, Line.startsWith form "=" = false)
        ∧ ∀ i ∈ inversions, ∀ form ∈ report.sections.get i.source, Smooth form := by
    decide +kernel
  have hroute : engine.2.read (.ofString "out.sgm") = engine.2.read (.ofPath (.ofString "out.sgm")) := rfl
  obtain ⟨bases, back, hbases, hback, herrors, hsections⟩ :=
    invertFile_writeDerived hwritten hclean (by decide) hrule hsmooth hroute
  refine ⟨back, hback, herrors, ?_⟩
  have hwords : ∃ bases, readSections dogFile (.ofPath (.ofString "lex.sgm")) sources = .ok bases
      ∧ bases = [("AKO", ["dog", "man", "dog"]), ("ACT", ["stop"])] := by
    decide +kernel
  obtain ⟨_, hsame, rfl⟩ := hwords
  rw [hbases] at hsame
  cases hsame
  rw [hsections]
  decide +kernel

/-- A lexicon that is derived and written, and the forms read again. -/
def roundTrip (name text out : String) : Except Fault Report × Except Fault Report :=
  let files : Files := { entries := [([name], .text text)] }
  let o := writeDerived {} files (.ofString name) (.ofString out) true false
  (o.result, (invertFile o.state.1 o.state.2 (.ofString out) true none).result)

/-- A derived lexicon may have no problem and no form that starts with an equals sign, and yet not give
its words back: a form with two slashes is cut off as a comment, a line break in the name of the lexicon
file leads out of the comment that the name stands in, and a path that ends in a slash does not open the
file that was written to it. -/
theorem inversion_fails_on_slashes_and_breaks :
    let derives (name text out : String) := ∃ report, (roundTrip name text out).1 = .ok report
      ∧ report.errors = 0 ∧ ∀ s ∈ report.sections, ∀ form ∈ s.2, Line.startsWith form "=" = false
    (derives "lex.sgm" "=[HQ]\n  a/\n" "out.sgm"
      ∧ ∃ back, (roundTrip "lex.sgm" "=[HQ]\n  a/\n" "out.sgm").2 = .ok back
        ∧ back.problems = ["acomp: a -> (null)", "asup: a -> (null)"])
    ∧ (derives "a\n=[AKO-S]\nshe" "" "out.sgm"
      ∧ ∃ back, (roundTrip "a\n=[AKO-S]\nshe" "" "out.sgm").2 = .ok back
        ∧ back.problems = ["npl: she -> she -> shes"])
    ∧ derives "lex.sgm" "" "out.sgm/" ∧ (roundTrip "lex.sgm" "" "out.sgm/").2.isOk = false := by
  intro derives
  obtain ⟨report, hwritten, hclean, hrule, hsections⟩ : ∃ report,
      (roundTrip "lex.sgm" "=[HQ]\n  a/\n" "out.sgm").1 = .ok report ∧ report.errors = 0
        ∧ (∀ s ∈ report.sections, ∀ form ∈ s.2, Line.startsWith form "=" = false)
        ∧ report.sections = [("HQ-ER", ["a//er"]), ("HQ-EST", ["a//est"]), ("MOD", ["a/ly"])] := by
    decide +kernel
  refine ⟨⟨⟨report, hwritten, hclean, hrule⟩, ?_⟩, by decide +kernel⟩
  -- the two forms with slashes lose their ends as the written lines are read
  have hforms := readForms_writeDerived hwritten hclean (by decide)
    (Eq.refl (Files.read _ (.ofString "out.sgm")))
  rw [hsections] at hforms
  simp only [roundTrip, invertFile, hforms]
  decide +kernel

end Utterance.Lexicon
