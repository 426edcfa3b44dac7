import Utterance.Proofs.AssocList.Entries

/-!
# Phrases in brackets

With closing markers, the entries of a derivation are in brackets: a marker with a name opens a phrase,
and the bare marker after the entries of its node closes it. Everything between the two is the work of
inner nodes, which close what they open. So a stack of open phrases is after a node what it was before,
and without its bare markers the list is the one that is built without closing markers.
-/

namespace Utterance

/-! ## Names of a derivation -/

namespace Tree

mutual

/-- The names of the nodes of a derivation whose root is named `label`. -/
def names (g : Grammar) (label : String) : Tree → List String
  | .word => []
  | .node rule _ _ parts => label :: namesOf g (g.stepsAt rule) parts

/-- The names of the nodes of the parts that match the heads among steps. -/
def namesOf (g : Grammar) (steps : List Step) : List Tree → List String
  | [] => []
  | part :: rest =>
    match steps with
    | [] => []
    | step :: steps =>
      (if step.nonterminal then names g step.symbol part else []) ++ namesOf g steps rest

end

end Tree

/-- The names of the nodes of the selected derivation. -/
def Analysis.names (g : Grammar) (a : Analysis) : List String :=
  match a.candidate? none with
  | none => []
  | some s =>
    match g.productions[s.item.rule]? with
    | none => []
    | some p => (a.chart.tree s).names g p.head

namespace AssocList

/-- A name whose entry shows what it is: it has no tab and no space at its end, a small letter if it
starts with a marker, and no carets before a marker. -/
structure Telling (label : String) : Prop where
  clean : Clean label
  phrase : isMarker label = true → label.toList.any Text.isLower = true
  caret : label.toList.head? = some '^' → isMarker (Text.trimStartWhile (· == '^') label) = false

/-! ## Open phrases -/

/-- The open phrases after an entry, innermost first. A bare marker closes the innermost one, which must
have been opened by the same character. -/
def track (phrases : List Char) (entry : String) : Option (List Char) :=
  if isClosing entry then
    match phrases with
    | [] => none
    | c :: outer => if entry.toList = [c] then some outer else none
  else if isMarker entry then some (entry.toList.take 1 ++ phrases)
  else some phrases

/-- The open phrases after some entries. -/
def trackAll (phrases : List Char) (entries : List String) : Option (List Char) :=
  entries.foldlM track phrases

/-- Entries that close every phrase they open and no other. -/
def Bracketed (entries : List String) : Prop := ∀ phrases, trackAll phrases entries = some phrases

variable {label value : String} {entries more : List String} {closing : Bool}

theorem bracketed_nil : Bracketed [] := fun _ => rfl

/-- Entries are tracked one after the other. -/
theorem trackAll_append (phrases : List Char) (entries more : List String) :
    trackAll phrases (entries ++ more)
      = (trackAll phrases entries).bind fun phrases => trackAll phrases more :=
  List.foldlM_append

/-- What closes every phrase that it opens may be followed by more that does. -/
theorem Bracketed.append (h : Bracketed entries) (hmore : Bracketed more) :
    Bracketed (entries ++ more) := by
  intro phrases
  rw [trackAll_append, h, Option.bind_some, hmore]

/-! ## Markers -/

theorem isLower_of_isMarkerChar {c : Char} (h : isMarkerChar c = true) : Text.isLower c = false := by
  simp only [isMarkerChar, Bool.or_eq_true, beq_iff_eq] at h
  rcases h with (rfl | rfl) | rfl <;> decide

/-- A marker with a small letter has a name after its first character, since the characters that
mark a phrase are no letters. -/
theorem exists_of_isMarker (hmarker : isMarker label = true)
    (hlower : label.toList.any Text.isLower = true) :
    ∃ c cs, label.toList = c :: cs ∧ isMarkerChar c = true ∧ cs ≠ [] := by
  unfold isMarker at hmarker
  cases hlabel : label.toList with
  | nil => simp [hlabel] at hmarker
  | cons c cs =>
    have hc : isMarkerChar c = true := by simpa [hlabel] using hmarker
    refine ⟨c, cs, rfl, hc, ?_⟩
    rintro rfl
    simp [hlabel, isLower_of_isMarkerChar hc] at hlower

/-- A marker with a name opens a phrase. -/
theorem track_open {c : Char} {cs : List Char} (hlabel : label.toList = c :: cs)
    (hc : isMarkerChar c = true) (hcs : cs ≠ []) (phrases : List Char) :
    isClosing label = false ∧ track phrases label = some (c :: phrases) := by
  have hmarker : isMarker label = true := by simp [isMarker, hlabel, hc]
  have hclosing : isClosing label = false := by
    have := List.length_pos_of_ne_nil hcs
    rw [isClosing, hmarker, Bool.true_and, decide_eq_false_iff_not, ← String.length_toList, hlabel,
      List.length_cons]
    omega
  refine ⟨hclosing, ?_⟩
  simp [track, hclosing, hmarker, hlabel]

/-- A bare marker closes the phrase that its character opened. -/
theorem track_close {c : Char} (hc : isMarkerChar c = true) (phrases : List Char) :
    isClosing (String.singleton c) = true
      ∧ track (c :: phrases) (String.singleton c) = some phrases := by
  have hclosing : isClosing (String.singleton c) = true := by
    simp [isClosing, isMarker, hc]
  refine ⟨hclosing, ?_⟩
  simp [track, hclosing]

/-- Every other entry leaves the open phrases as they are. -/
theorem track_of_isMarker_eq_false (h : isMarker label = false) (phrases : List Char) :
    isClosing label = false ∧ track phrases label = some phrases := by
  have hclosing : isClosing label = false := by rw [isClosing, h, Bool.false_and]
  refine ⟨hclosing, ?_⟩
  simp [track, hclosing, h]

/-- Nothing is left out of a name that does not start with a caret. -/
theorem trimStartWhile_caret (h : label.toList.head? ≠ some '^') :
    Text.trimStartWhile (· == '^') label = label := by
  have hsame : label.toList.dropWhile (· == '^') = label.toList := by
    cases hcs : label.toList with
    | nil => rfl
    | cons c cs =>
      have hc : (c == '^') = false := by simpa [hcs] using h
      rw [List.dropWhile_cons_of_neg (by simp [hc])]
  rw [Text.trimStartWhile, hsame, String.ofList_toList]

/-- The entry of a slot is a marker if its name without carets is one: the equals sign is none. -/
theorem isMarker_slotEntry_eq (label value : String) :
    isMarker (slotEntry label value) = isMarker (Text.trimStartWhile (· == '^') label) := by
  simp only [isMarker, slotEntry, String.toList_append]
  cases (Text.trimStartWhile (· == '^') label).toList with
  | nil => rfl
  | cons c cs => rfl

/-- The entry of a slot with a telling name is no marker. -/
theorem Telling.isMarker_slotEntry (h : Telling label)
    (hslot : label.toList.any Text.isLower = false) (value : String) :
    isMarker (slotEntry label value) = false := by
  have hlabel : isMarker label = false := by
    rw [← Bool.not_eq_true]
    intro hmarker
    rw [h.phrase hmarker] at hslot
    cases hslot
  rw [isMarker_slotEntry_eq]
  -- the caret is not written, so behind it no marker character may stand
  by_cases hcaret : label.toList.head? = some '^'
  · exact h.caret hcaret
  · rw [trimStartWhile_caret hcaret]
    exact hlabel

/-! ## One node -/

/-- A node with a telling name closes the phrase that it opens, around entries that do the same. A
name that is no marker opens nothing. -/
theorem Telling.bracketed_enclose (h : Telling label) (hinside : Bracketed entries) :
    Bracketed (enclose true label entries) := by
  intro phrases
  cases hmarker : isMarker label with
  | false =>
    rw [enclose, opened, closed, hmarker, if_neg Bool.false_ne_true, Bool.and_false,
      if_neg Bool.false_ne_true, List.nil_append, List.append_nil]
    exact hinside phrases
  | true =>
    obtain ⟨c, cs, hlabel, hc, hcs⟩ := exists_of_isMarker hmarker (h.phrase hmarker)
    -- the label opens a phrase and its character closes it, and nothing between them is left open
    have hopened : trackAll phrases [label] = some (c :: phrases) := by
      rw [trackAll, List.foldlM_cons, (track_open hlabel hc hcs phrases).2]
      rfl
    have hclosed : trackAll (c :: phrases) [String.singleton c] = some phrases := by
      rw [trackAll, List.foldlM_cons, (track_close hc phrases).2]
      rfl
    rw [enclose, opened, closed, hmarker, if_pos rfl, Bool.and_true, if_pos rfl, hlabel,
      trackAll_append, trackAll_append, hopened, Option.bind_some, hinside, Option.bind_some]
    exact hclosed

/-- Without its closing marker a node is enclosed as if phrases were not closed. -/
theorem Telling.filter_enclose (h : Telling label) (entries : List String) :
    (enclose true label entries).filter (!isClosing ·)
      = enclose false label (entries.filter (!isClosing ·)) := by
  cases hmarker : isMarker label with
  | false => simp [enclose, opened, closed, hmarker]
  | true =>
    obtain ⟨c, cs, hlabel, hc, hcs⟩ := exists_of_isMarker hmarker (h.phrase hmarker)
    have hopen := (track_open hlabel hc hcs []).1
    have hclose := (track_close hc []).1
    simp [enclose, opened, closed, hmarker, hlabel, hopen, hclose]

end AssocList

/-! ## All nodes -/

namespace Tree

open AssocList

variable {g : Grammar} {spelling : List String}

mutual

/-- The entries of a node close every phrase that they open. -/
theorem bracketed_entries {label : String} : (t : Tree) → (∀ name ∈ t.names g label, Telling name) →
    Bracketed (t.entries g spelling true label)
  | .word, _ => by
    rw [entries]
    exact bracketed_nil
  | .node rule start stop parts, h => by
    rw [names] at h
    have hlabel := h label (List.mem_cons_self ..)
    rw [entries]
    apply hlabel.bracketed_enclose
    split
    · exact bracketed_entriesOf _ parts fun name hname => h name (List.mem_cons_of_mem _ hname)
    · rename_i hslot
      -- a slot is one pair, which opens and closes nothing
      intro phrases
      have hentry := hlabel.isMarker_slotEntry (Bool.eq_false_iff.2 hslot)
      rw [trackAll, List.foldlM_cons, (track_of_isMarker_eq_false (hentry _) phrases).2]
      rfl

/-- So do the entries of all parts, one part after the other. -/
theorem bracketed_entriesOf (steps : List Step) : (parts : List Tree) →
    (∀ name ∈ namesOf g steps parts, Telling name) →
    Bracketed (entriesOf g spelling true steps parts)
  | [], _ => by
    rw [entriesOf_nil]
    exact bracketed_nil
  | part :: rest, h => by
    match steps with
    | [] =>
      rw [entriesOf]
      exact bracketed_nil
    | step :: steps =>
      rw [namesOf] at h
      rw [entriesOf]
      apply Bracketed.append
      -- a step that is a word has a leaf as its part, which shows nothing
      · split
        · rename_i hstep
          rw [if_pos hstep] at h
          exact bracketed_entries part fun name hname => h name (List.mem_append_left _ hname)
        · exact bracketed_nil
      · exact bracketed_entriesOf steps rest fun name hname => h name (List.mem_append_right _ hname)

end

mutual

/-- Without bare markers the entries of a node are those that it has if no phrase is closed. -/
theorem filter_entries {label : String} : (t : Tree) → (∀ name ∈ t.names g label, Telling name) →
    (t.entries g spelling true label).filter (!isClosing ·) = t.entries g spelling false label
  | .word, _ => by
    rw [entries, entries]
    rfl
  | .node rule start stop parts, h => by
    rw [names] at h
    have hlabel := h label (List.mem_cons_self ..)
    rw [entries, entries, hlabel.filter_enclose]
    -- the marker that the node closes with is filtered out; what stands inside remains
    congr 1
    split
    · exact filter_entriesOf _ parts fun name hname => h name (List.mem_cons_of_mem _ hname)
    · rename_i hslot
      have hentry := hlabel.isMarker_slotEntry (Bool.eq_false_iff.2 hslot)
      rw [List.filter_cons_of_pos, List.filter_nil]
      rw [(track_of_isMarker_eq_false (hentry _) []).1]
      rfl

/-- The same of all parts, one after the other: without bare markers the entries are those of the
list that has none. -/
theorem filter_entriesOf (steps : List Step) : (parts : List Tree) →
    (∀ name ∈ namesOf g steps parts, Telling name) →
    (entriesOf g spelling true steps parts).filter (!isClosing ·)
      = entriesOf g spelling false steps parts
  | [], _ => by
    rw [entriesOf_nil, entriesOf_nil]
    rfl
  | part :: rest, h => by
    match steps with
    | [] =>
      rw [entriesOf, entriesOf]
      rfl
    | step :: steps =>
      rw [namesOf] at h
      -- the entries of this part come first, if its step is a head, and then those of the rest
      rw [entriesOf, entriesOf, List.filter_append]
      congr 1
      · split
        · rename_i hstep
          rw [if_pos hstep] at h
          exact filter_entries part fun name hname => h name (List.mem_append_left _ hname)
        · rfl
      · exact filter_entriesOf steps rest fun name hname => h name (List.mem_append_right _ hname)

end

end Tree

/-! ## The association list -/

namespace Analysis

variable {g : Grammar} {a : Analysis} {s : ChartState} {p : Production} {text : String}

/-- The association list of a selected derivation has the entries of the derivation, and they are read
back from it as they are, if the name of its root is clean. -/
theorem Selected.exists_entries (hg : g.Coherent) (htidy : g.Tidy)
    (hs : Selected g (tokenize true text) a s) (hp : g.productions[s.item.rule]? = some p)
    (hhead : AssocList.Clean p.head) (closing : Bool) :
    ∃ alist, (a.assocList g closing).result = .ok alist
      ∧ alist.entries = (a.chart.tree s).entries g a.spelling closing p.head := by
  refine ⟨.ofEntries ((a.chart.tree s).entries g a.spelling closing p.head), ?_, ?_⟩
  · exact assocList_eq_ofEntries hg hs.candidate hs.derives hp closing
  · apply AssocList.entries_ofEntries
    obtain ⟨q, parts, hq, htree, hexpands⟩ := Grammar.exists_of_mem_derivations hs.derives
    obtain rfl : p = q := Option.some.inj (hp.symm.trans hq)
    have hsteps : ∀ step ∈ p.steps, Text.IsWord step.symbol :=
      fun step hstep => htidy.isWord_at hp hstep
    have hspelling := hs.plain_spelling htidy
    rw [htree]
    exact Tree.plain_entries hp hhead hspelling hsteps
      (hexpands.plain_entriesOf htidy hspelling hsteps)

theorem Selected.names_eq (hs : Selected g (tokenize true text) a s)
    (hp : g.productions[s.item.rule]? = some p) : a.names g = (a.chart.tree s).names g p.head := by
  simp only [names, hs.candidate, hp]

/-- The association list of a text that parses, with closing markers: every bare marker closes the
phrase that was opened last, by the same character, and in the end no phrase is open. Without the bare
markers the entries are those of the list without closing markers. -/
theorem assocList_brackets {g : Grammar} (hg : g.Built) (status : Nat → Status) (text : String)
    (conf : Confidence)
    (hparses : (parse (g.withStatuses status) (.text text) conf).state.candidates ≠ [])
    (hnames : ∀ name ∈ (parse (g.withStatuses status) (.text text) conf).state.names
      (g.withStatuses status), AssocList.Telling name) :
    let grammar := g.withStatuses status
    let a := (parse grammar (.text text) conf).state
    ∃ closed plain, (a.assocList grammar true).result = .ok closed
      ∧ (a.assocList grammar false).result = .ok plain
      ∧ AssocList.trackAll [] closed.entries = some []
      ∧ closed.entries.filter (!AssocList.isClosing ·) = plain.entries := by
  intro grammar a
  have hcoherent : grammar.Coherent := hg.coherent.withStatuses status
  have htidy : grammar.Tidy := hg.tidy.withStatuses status
  obtain ⟨s, hs⟩ := exists_selected hcoherent hparses
  obtain ⟨p, parts, hp, htree, _⟩ := Grammar.exists_of_mem_derivations hs.derives
  -- the names of the analysis are those of the selected tree, and its root is one of them
  rw [hs.names_eq hp] at hnames
  have hhead : AssocList.Clean p.head := by
    apply (hnames p.head _).clean
    rw [htree, Tree.names]
    exact List.mem_cons_self ..
  obtain ⟨closed, hclosed, hentries⟩ := hs.exists_entries hcoherent htidy hp hhead true
  obtain ⟨plain, hplain, hopen⟩ := hs.exists_entries hcoherent htidy hp hhead false
  refine ⟨closed, plain, hclosed, hplain, ?_, ?_⟩
  · rw [hentries]
    exact Tree.bracketed_entries _ hnames []
  · rw [hentries, hopen]
    exact Tree.filter_entries _ hnames

/-- The phrase of `Go home` has a slot in it and is closed by its bare marker. -/
theorem assocList_brackets_outing :
    let a := (parse topOutings (.text "Go home") .absent).state
    a.candidates ≠ [] ∧ a.names topOutings = ["!go", "PLACE"]
      ∧ (∀ name ∈ a.names topOutings, AssocList.Telling name)
      ∧ ∃ closed plain, (a.assocList topOutings true).result = .ok closed
        ∧ (a.assocList topOutings false).result = .ok plain
        ∧ closed.entries = ["!go", "PLACE=home", "!"]
        ∧ AssocList.trackAll [] closed.entries = some []
        ∧ closed.entries.filter (!AssocList.isClosing ·) = plain.entries := by
  intro a
  obtain ⟨s, hs, hp, htree⟩ := exists_selected_phrase toWords_outing
  rw [← tokenize_outing] at hs
  have hslot := (@production_topOutings 1 ⟨1, "PLACE", [⟨"#", false⟩], .top⟩).2 (.inr ⟨rfl, rfl⟩)
  have hnames : a.names topOutings = ["!go", "PLACE"] := by
    rw [hs.names_eq hp, htree, outing, Tree.names,
      Grammar.stepsAt_eq (production_topOutings.2 (.inl ⟨rfl, rfl⟩))]
    simp [Tree.names, Tree.namesOf, Grammar.stepsAt_eq hslot]
  -- one name opens a phrase and the other is that of a slot
  have htelling : ∀ name ∈ a.names topOutings, AssocList.Telling name := by
    rw [hnames]
    intro name hname
    simp only [List.mem_cons, List.not_mem_nil, or_false] at hname
    rcases hname with rfl | rfl
    · exact ⟨⟨by decide, by decide⟩, by decide, by decide⟩
    · exact ⟨⟨by decide, by decide⟩, by decide, by decide⟩
  obtain ⟨closed, plain, hclosed, hplain, hbrackets, hfilter⟩ :=
    assocList_brackets built_outings (fun _ => .top) "Go home" .absent candidates_topOutings htelling
  obtain ⟨alist, halist, hentries⟩ := hs.exists_entries (built_outings.coherent.withStatuses _)
    (built_outings.tidy.withStatuses _) hp ⟨by decide, by decide⟩ true
  rw [htree, spelling_topOutings, entries_outing] at hentries
  obtain rfl : alist = closed := Except.ok.inj (halist.symm.trans hclosed)
  exact ⟨candidates_topOutings, hnames, htelling, alist, plain, hclosed, hplain, hentries, hbrackets,
    hfilter⟩

end Analysis

end Utterance
