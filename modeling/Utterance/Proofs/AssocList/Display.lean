import Utterance.Proofs.AssocList.Nodes

/-!
# Lists on one line

A list is displayed on one line with spaces for its tabs and underscores for its spaces. Reading the
line turns spaces into tabs and underscores into spaces again, so an underscore that was there before
comes back as a space. That is all that is lost of the list of a derivation, because such a list is
empty or starts with a tab and an entry. So it comes back as it was exactly if no node that the walk
comes to shows an underscore, in its name or in its value.
-/

namespace Utterance

namespace AssocList

variable {a : AssocList} {cs : List Char} {es : List String}

/-! ## Characters -/

/-- A character of a list, as it is displayed. -/
def displayed (c : Char) : Char := if c = ' ' then '_' else if c = '\t' then ' ' else c

/-- A displayed character, as it is read. -/
def readBack (c : Char) : Char := if c = ' ' then '\t' else if c = '_' then ' ' else c

/-- A character of a list that was displayed and read. -/
def blurred (c : Char) : Char := if c = '_' then ' ' else c

/-- Only underscores are taken for something else. -/
theorem readBack_displayed (c : Char) : readBack (displayed c) = blurred c := by
  unfold readBack displayed blurred
  by_cases hspace : c = ' '
  · subst hspace
    decide
  · by_cases htab : c = '\t'
    · subst htab
      decide
    · simp [hspace, htab]

/-- Only a tab is displayed as a space. -/
theorem displayed_eq_space_iff {c : Char} : displayed c = ' ' ↔ c = '\t' := by
  unfold displayed
  by_cases hspace : c = ' '
  · subst hspace
    decide
  · by_cases htab : c = '\t' <;> simp [hspace, htab]

/-- Displaying and reading changes nothing just if there is no underscore. -/
theorem map_blurred_eq_self_iff : cs.map blurred = cs ↔ '_' ∉ cs := by
  induction cs with
  | nil => simp
  | cons c cs ih =>
    rw [List.map_cons, List.cons.injEq, ih, List.mem_cons, not_or]
    refine and_congr_left fun _ => ?_
    unfold blurred
    split
    · rename_i hc
      subst hc
      decide
    · rename_i hc
      exact ⟨fun _ => Ne.symm hc, fun _ => rfl⟩

/-! ## Lists -/

/-- A list that is displayed loses the space that its first tab has become. -/
theorem pretty_eq (a : AssocList) :
    a.pretty = match a.text.toList.map displayed with
      | ' ' :: rest => String.ofList rest
      | _ => String.ofList (a.text.toList.map displayed) := rfl

/-- A list that starts with a tab is displayed without it. -/
theorem pretty_of_tab (h : a.text.toList = '\t' :: cs) : a.pretty = String.ofList (cs.map displayed) := by
  rw [pretty_eq, h]
  rfl

/-- Without a tab in front nothing is lost. -/
theorem pretty_of_head?_ne (h : a.text.toList.head? ≠ some '\t') :
    a.pretty = String.ofList (a.text.toList.map displayed) := by
  rw [pretty_eq]
  split
  · rename_i rest hdisplayed
    -- only a tab is displayed as a space
    obtain ⟨c, cs, hcs, hc, _⟩ := List.map_eq_cons_iff.1 hdisplayed
    rw [displayed_eq_space_iff.1 hc] at hcs
    exact absurd (by rw [hcs]; rfl) h
  · rfl

/-- What is read gets a tab in front. -/
theorem text_ofPretty (hne : cs ≠ []) :
    (ofPretty (String.ofList cs)).text = String.ofList ('\t' :: cs.map readBack) := by
  rw [ofPretty, if_neg (by simpa using hne), String.toList_ofList]
  rfl

/-- A list that starts with a tab and an entry comes back but for its underscores. -/
theorem text_ofPretty_pretty (h : a.text.toList = '\t' :: cs) (hne : cs ≠ []) :
    (ofPretty a.pretty).text.toList = a.text.toList.map blurred := by
  have hblurred : (cs.map displayed).map readBack = cs.map blurred := by
    rw [List.map_map]
    exact List.map_congr_left fun c _ => readBack_displayed c
  rw [pretty_of_tab h, text_ofPretty (by simpa using hne), String.toList_ofList, hblurred, h,
    List.map_cons]
  rfl

/-- A list comes back as it was exactly if it has no underscore and is empty or starts with a tab that
is not all of it. -/
theorem ofPretty_pretty_iff (a : AssocList) :
    ofPretty a.pretty = a
      ↔ '_' ∉ a.text.toList ∧ (a.text.toList = [] ∨ ∃ cs, cs ≠ [] ∧ a.text.toList = '\t' :: cs) := by
  have hext : ofPretty a.pretty = a ↔ (ofPretty a.pretty).text.toList = a.text.toList := by
    rw [String.toList_inj]
    exact ⟨congrArg text, fun h => by cases a; exact congrArg mk h⟩
  rw [hext]
  cases hcs : a.text.toList with
  | nil =>
    have hempty : a.text = "" := String.toList_eq_nil_iff.1 hcs
    simp [pretty, ofPretty, hempty]
  | cons c cs =>
    by_cases hc : c = '\t'
    · subst hc
      cases cs with
      -- a mere tab is displayed as nothing
      | nil => simp [pretty_of_tab hcs, ofPretty]
      | cons d ds =>
        rw [text_ofPretty_pretty hcs (List.cons_ne_nil d ds), hcs, map_blurred_eq_self_iff]
        simp
    · have hhead : a.text.toList.head? ≠ some '\t' := by
        rw [hcs]
        simpa using hc
      rw [pretty_of_head?_ne hhead, text_ofPretty (by simp [hcs]), String.toList_ofList]
      simp [Ne.symm hc, hc]

/-! ## Lists of entries -/

theorem text_ofEntries_cons (e : String) (es : List String) :
    (ofEntries (e :: es)).text.toList = '\t' :: (e.toList ++ (ofEntries es).text.toList) := by
  simp [text_ofEntries, String.join_cons]

/-- But for the tabs, the characters of a list are those of its entries. -/
theorem mem_text_ofEntries {c : Char} (hc : c ≠ '\t') :
    c ∈ (ofEntries es).text.toList ↔ ∃ e ∈ es, c ∈ e.toList := by
  induction es with
  | nil => simp [text_ofEntries]
  | cons e es ih => simp [text_ofEntries_cons, hc, ih]

/-- A list of entries that are not empty is empty or starts with a tab and an entry. -/
theorem text_ofEntries_cases (h : ∀ e ∈ es, e.toList ≠ []) :
    (ofEntries es).text.toList = [] ∨ ∃ cs, cs ≠ [] ∧ (ofEntries es).text.toList = '\t' :: cs := by
  cases es with
  | nil => exact .inl rfl
  | cons e es =>
    have he := h e (List.mem_cons_self ..)
    exact .inr ⟨_, by simp [he], text_ofEntries_cons e es⟩

/-- The list of some entries that are not empty comes back but for their underscores. -/
theorem ofPretty_pretty_ofEntries (h : ∀ e ∈ es, e.toList ≠ []) :
    (ofPretty (ofEntries es).pretty).text.toList = (ofEntries es).text.toList.map blurred
      ∧ (ofPretty (ofEntries es).pretty = ofEntries es ↔ ∀ e ∈ es, '_' ∉ e.toList) := by
  have hcases := text_ofEntries_cases h
  constructor
  · rcases hcases with hnil | ⟨cs, hne, hcs⟩
    · have hempty : (ofEntries es).text = "" := String.toList_eq_nil_iff.1 hnil
      simp [pretty, ofPretty, hempty]
    · exact text_ofPretty_pretty hcs hne
  · rw [ofPretty_pretty_iff, and_iff_left hcases, mem_text_ofEntries (by decide)]
    simp

end AssocList

/-! ## The list of a derivation -/

/-- A node shows no empty entry. -/
theorem Outline.ne_nil_of_mem_shown {o : Outline} {spelling : List String} {e : String}
    (he : e ∈ o.shown spelling) : e.toList ≠ [] := by
  rw [shown, AssocList.opened] at he
  rcases List.mem_append.1 he with he | he <;> split at he
  · rename_i hmarker
    rw [List.mem_singleton.1 he]
    exact AssocList.ne_nil_of_isMarker hmarker
  · cases he
  -- a pair has its equals sign at least
  · rw [List.mem_singleton.1 he]
    simp [AssocList.slotEntry]
  · cases he

variable {g : Grammar} {words : List String} {tree : Tree} {o : Outline}

/-- The list of a derivation comes back but for the underscores that its nodes show. Bare markers
have no underscores, so it does not matter whether they are in the list. -/
theorem Outlined.ofPretty_pretty (h : Outlined g words tree o) (spelling : List String)
    (closing : Bool) :
    let alist := AssocList.ofEntries (tree.entries g spelling closing o.label)
    (AssocList.ofPretty alist.pretty).text.toList = alist.text.toList.map AssocList.blurred
      ∧ (AssocList.ofPretty alist.pretty = alist
        ↔ ∀ n ∈ o.reached, ∀ e ∈ n.shown spelling, '_' ∉ e.toList) := by
  have homits := h.omits_entries spelling closing
  have hne : ∀ e ∈ tree.entries g spelling closing o.label, e.toList ≠ [] := by
    intro e he
    rcases homits.mem_or he with he | hclosing
    · obtain ⟨n, _, he⟩ := List.mem_flatMap.1 he
      exact Outline.ne_nil_of_mem_shown he
    · exact (AssocList.plain_of_isClosing hclosing).1
  -- a bare marker has no underscore
  have hclean : ∀ e, AssocList.isClosing e = true → (!e.toList.contains '_') = true := by
    intro e hclosing
    rcases AssocList.isClosing_cases hclosing with rfl | rfl | rfl <;> decide
  have hunderscores : (∀ e ∈ tree.entries g spelling closing o.label, '_' ∉ e.toList)
      ↔ ∀ n ∈ o.reached, ∀ e ∈ n.shown spelling, '_' ∉ e.toList := by
    have hall := homits.all_eq hclean
    rw [Bool.eq_iff_iff] at hall
    simp only [List.all_eq_true, List.mem_flatMap, forall_exists_index, and_imp, Bool.not_eq_true',
      List.contains_eq_mem, decide_eq_false_iff_not] at hall
    rw [hall]
    exact ⟨fun h n hn e he => h e n hn he, fun h e n hn he => h n hn e he⟩
  have hback := AssocList.ofPretty_pretty_ofEntries hne
  rw [hunderscores] at hback
  exact hback

namespace Analysis

/-- The association list of a sentence that parses, with closing markers or without, displayed on one
line and read back. It has spaces for its underscores then, and nothing else is changed; so it comes
back as it was exactly if no node that the walk comes to shows an underscore. -/
theorem ofPretty_pretty_assocList {g : Grammar} (hg : g.Built) (status : Nat → Status)
    (sentence : Sentence) (conf : Confidence) (closing : Bool)
    (hparses : (parse (g.withStatuses status) sentence conf).state.candidates ≠ []) :
    let grammar := g.withStatuses status
    let a := (parse grammar sentence conf).state
    ∃ s p o alist, a.candidate? none = some s ∧ grammar.productions[s.item.rule]? = some p
      ∧ a.chart.tree s ∈ grammar.derivations sentence.toWords s.item.rule
      ∧ (a.chart.tree s).outline? grammar p.head = some o
      ∧ (a.assocList grammar closing).result = .ok alist
      ∧ (AssocList.ofPretty alist.pretty).text.toList = alist.text.toList.map AssocList.blurred
      ∧ (AssocList.ofPretty alist.pretty = alist
        ↔ ∀ n ∈ o.reached, ∀ e ∈ n.shown a.spelling, '_' ∉ e.toList) := by
  intro grammar a
  have hcoherent : grammar.Coherent := hg.coherent.withStatuses status
  obtain ⟨s, hs⟩ := exists_selected hcoherent hparses
  obtain ⟨p, _, hp, houtlined⟩ := Grammar.exists_outlined_of_mem_derivations hs.derives
  have halist := assocList_eq_ofEntries hcoherent hs.candidate hs.derives hp closing
  exact ⟨s, p, _, _, hs.candidate, hp, hs.derives, houtlined.outline, halist,
    houtlined.ofPretty_pretty a.spelling closing⟩

/-- The list of an outing comes back as it was, with the bare marker that closes its phrase. -/
theorem ofPretty_pretty_outing :
    let a := (parse topOutings (.text "Go home") .absent).state
    a.candidates ≠ []
      ∧ ∃ alist, (a.assocList topOutings true).result = .ok alist ∧ alist.pretty = "!go PLACE=home !"
        ∧ AssocList.ofPretty alist.pretty = alist := by
  intro a
  obtain ⟨s, p, o, alist, hcandidate, hp, _, ho, halist, _, hback⟩ :=
    ofPretty_pretty_assocList built_outings (fun _ => .top) (.text "Go home") .absent true
      candidates_topOutings
  obtain ⟨s', hs', hp', htree⟩ := exists_selected_phrase toWords_outing
  obtain rfl := Option.some.inj (hs'.candidate.symm.trans hcandidate)
  obtain rfl := Option.some.inj (hp'.symm.trans hp)
  -- the list is known from its entries, and that it comes back from what the nodes show
  have halist' := halist
  rw [assocList_eq_ofEntries (built_outings.coherent.withStatuses _) hs'.candidate hs'.derives hp',
    htree, spelling_topOutings, entries_outing] at halist'
  rw [htree, outline?_outing, Option.some.injEq] at ho
  refine ⟨candidates_topOutings, alist, halist, ?_, hback.2 ?_⟩
  · rw [← Except.ok.inj halist']
    decide
  · rw [← ho, reached_outing, spelling_topOutings]
    decide

/-- The underscore in the name of a slot comes back as a space, since the way back turns every one
of them into a space. -/
theorem not_forall_ofPretty_pretty :
    ¬∀ (g : Grammar) (status : Nat → Status) (text : String) (conf : Confidence) (closing : Bool),
      g.Built → (parse (g.withStatuses status) (.text text) conf).state.candidates ≠ [] →
      let grammar := g.withStatuses status
      let a := (parse grammar (.text text) conf).state
      ∀ alist, (a.assocList grammar closing).result = .ok alist →
        AssocList.ofPretty alist.pretty = alist := by
  intro h
  obtain ⟨s, hs, hp, houtlined, hspelling⟩ := exists_selected_command "MY_SLOT"
  have hcoherent := (built_command "MY_SLOT").coherent.withStatuses fun _ => .top
  have hsame := h (command "MY_SLOT") (fun _ => .top) "go" .absent false (built_command "MY_SLOT")
    (candidates_topCommand "MY_SLOT") _
    (assocList_eq_ofEntries hcoherent hs.candidate hs.derives hp false)
  rw [hspelling] at hsame
  have hback := (houtlined.ofPretty_pretty ["go"] false).2.1 hsame
  rw [Outline.reached] at hback
  exact absurd (hback _ (List.mem_cons_self ..)) (by decide)

end Analysis

end Utterance
