import Utterance.Proofs.AssocList.Slots
import Utterance.Proofs.Grammar.Expansion
import Utterance.Proofs.Parse.Spelling
import Utterance.Proofs.Text.Blank
import Utterance.Proofs.Token

/-!
# Entries of a sentence

An association list gives back the entries that it was made from if these have no tab and no space at
their end. The symbols of a grammar and the tokens of a text are such texts, and so are the entries of
a derivation, if the heads of the grammar are. So the association list of a text that parses says
exactly what the selected derivation says.
-/

namespace Utterance

namespace AssocList

/-! ## Reading entries back -/

/-- A text without a tab and without a space at its end. -/
def Clean (s : String) : Prop := '\t' ∉ s.toList ∧ s.toList.getLast? ≠ some ' '

/-- A text that is read back as it is. -/
def Plain (s : String) : Prop := s.toList ≠ [] ∧ Clean s

/-- Items without the separator, each with one in front, are cut into the items and an empty piece
before them. -/
theorem pieces_flatMap {sep : Char} {items : List (List Char)} (h : ∀ cs ∈ items, sep ∉ cs) :
    Text.pieces sep (items.flatMap (sep :: ·)) = [] :: items := by
  induction items with
  | nil => rfl
  | cons cs items ih =>
    have hrest := ih fun ds hds => h ds (List.mem_cons_of_mem _ hds)
    rw [List.flatMap_cons, List.cons_append, Text.pieces, if_pos rfl,
      Text.pieces_append (h cs (List.mem_cons_self ..)) hrest]

/-- Entries without tabs and spaces at their end are read back as they are. A tab would cut an entry
in two, and spaces at its end are dropped when it is read. -/
theorem entries_ofEntries {items : List String} (h : ∀ e ∈ items, Plain e) :
    (ofEntries items).entries = items := by
  have htext : (ofEntries items).text.toList = (items.map String.toList).flatMap ('\t' :: ·) := by
    rw [text_ofEntries, String.toList_join, List.flatMap_map, List.flatMap_map]
    simp
  -- the text starts with a tab, so the piece before the first entry is empty and is dropped
  have hpieces : Text.pieces '\t' (ofEntries items).text.toList = [] :: items.map String.toList := by
    rw [htext]
    apply pieces_flatMap
    intro cs hcs
    obtain ⟨e, he, rfl⟩ := List.mem_map.1 hcs
    exact (h e he).2.1
  -- the last character of an entry is no space, so the entry is not blank and nothing is cut off
  have hlast : ∀ e ∈ items, ∀ c ∈ e.toList.getLast?, (c == ' ') = false := by
    intro e he c hc
    have hne := (h e he).2.2
    rw [hc] at hne
    simpa using hne
  have hkept : (items.map String.toList).filter (fun p => p.any (· != ' '))
      = items.map String.toList := by
    rw [List.filter_eq_self]
    intro cs hcs
    obtain ⟨e, he, rfl⟩ := List.mem_map.1 hcs
    have hsome := List.getLast?_eq_some_getLast (h e he).1
    rw [List.any_eq_true]
    exact ⟨_, List.getLast_mem (h e he).1, by simpa using hlast e he _ hsome⟩
  rw [entries, entryChars, hpieces, List.drop_one, List.tail_cons, hkept, List.map_map,
    List.map_map]
  conv_rhs => rw [← List.map_id items]
  apply List.map_congr_left
  intro e he
  simp only [Function.comp_apply, Text.dropTailWhile_eq_self (hlast e he), String.ofList_toList, id]

/-! ## Entries are plain -/

/-- A text is plain if it has no characters of a kind that tabs and spaces are of. -/
theorem plain_of_forall {kind : Char → Bool} {s : String} (hne : s.toList ≠ [])
    (h : ∀ c ∈ s.toList, kind c = false) (htab : kind '\t' = true) (hspace : kind ' ' = true) :
    Plain s := by
  have hnot : ∀ c, kind c = true → c ∉ s.toList := by
    intro c hc hmem
    rw [h c hmem] at hc
    cases hc
  exact ⟨hne, hnot '\t' htab, fun hlast => hnot ' ' hspace (List.mem_of_getLast? hlast)⟩

theorem plain_of_isWord {s : String} (h : Text.IsWord s) : Plain s :=
  plain_of_forall h.1 h.2 rfl rfl

theorem plain_of_solid {s : String} (h : Token.Solid s) : Plain s :=
  plain_of_forall h.1 h.2 rfl rfl

/-- What stands before a plain text may end in a space. -/
theorem Plain.append_left {s t : String} (ht : Plain t) (hs : '\t' ∉ s.toList) : Plain (s ++ t) := by
  obtain ⟨hne, htab, hlast⟩ := ht
  refine ⟨by simp [hne], by simp [hs, htab], ?_⟩
  rw [String.toList_append, List.getLast?_append_of_ne_nil _ hne]
  exact hlast

/-- Plain words with spaces in between are plain, as the last of them has something behind its last
space. -/
theorem plain_intercalate {w : String} {words : List String} (h : ∀ u ∈ w :: words, Plain u) :
    Plain (" ".intercalate (w :: words)) := by
  induction words generalizing w with
  | nil => simpa using h w
  | cons v words ih =>
    obtain ⟨hw, hwords⟩ := List.forall_mem_cons.1 h
    rw [String.intercalate_cons_cons]
    exact (ih hwords).append_left (by simpa using hw.2.1)

/-- The same of no words at all, which need only be clean. -/
theorem clean_intercalate {words : List String} (h : ∀ w ∈ words, Plain w) :
    Clean (" ".intercalate words) := by
  cases words with
  | nil => exact ⟨by simp, by simp⟩
  | cons w words => exact (plain_intercalate h).2

/-- Dropping characters from the front adds none. -/
theorem not_mem_trimStartWhile {c : Char} {s : String} (h : c ∉ s.toList) (p : Char → Bool) :
    c ∉ (Text.trimStartWhile p s).toList := by
  rw [Text.trimStartWhile, String.toList_ofList]
  exact fun hmem => h ((List.dropWhile_sublist _).subset hmem)

/-- The entry of a slot is plain, if its name has no tab and its value is clean: the equals sign
stands between the two, so there is something of it in any case. -/
theorem plain_slotEntry {label value : String}
    (hslot : '\t' ∉ (Text.trimStartWhile (· == '^') label).toList) (hvalue : Clean value) :
    Plain (slotEntry label value) := by
  -- a slot without a value ends in the equals sign
  by_cases hnil : value.toList = []
  · have hempty : value = "" := String.toList_eq_nil_iff.1 hnil
    rw [slotEntry, hempty, String.append_empty]
    exact Plain.append_left ⟨by decide, by decide, by decide⟩ hslot
  · exact Plain.append_left ⟨hnil, hvalue⟩ (by simpa using hslot)

/-- No marker is empty. -/
theorem ne_nil_of_isMarker {s : String} (h : isMarker s = true) : s.toList ≠ [] := by
  intro hnil
  rw [isMarker, hnil] at h
  cases h

/-- What a node adds around the entries of its parts is plain: its marker, which is clean as its
name is, and a bare marker, which is a single character. -/
theorem plain_enclose {closing : Bool} {label : String} {inside : List String} (hlabel : Clean label)
    (hinside : ∀ e ∈ inside, Plain e) : ∀ e ∈ enclose closing label inside, Plain e := by
  intro e he
  simp only [enclose, opened, closed, List.mem_append] at he
  -- what opens the phrase, what is inside, and what closes it
  rcases he with (he | he) | he
  · split at he
    · rename_i hmarker
      rw [List.mem_singleton.1 he]
      exact ⟨ne_nil_of_isMarker hmarker, hlabel⟩
    · cases he
  · exact hinside e he
  · split at he
    · rename_i hmarker
      simp only [Bool.and_eq_true, isMarker] at hmarker
      rw [List.mem_singleton.1 he]
      cases hcs : label.toList with
      | nil => simp [hcs] at hmarker
      | cons c cs =>
        -- a marker is neither a tab nor a space
        have hc : isMarkerChar c = true := by simpa [hcs] using hmarker.2
        refine ⟨by simp, ?_, ?_⟩
        · rintro hmem
          simp at hmem
          subst hmem
          cases hc
        · intro hlast
          simp at hlast
          subst hlast
          cases hc
    · cases he

end AssocList

variable {g : Grammar} {spelling : List String} {closing : Bool}

/-- The value of a slot is a symbol of the grammar or some words that were spelled. -/
theorem Tree.clean_slotValue {label : String} {steps : List Step} {words : List String}
    (hsteps : ∀ step ∈ steps, Text.IsWord step.symbol) (hwords : ∀ w ∈ words, AssocList.Plain w) :
    AssocList.Clean (slotValue label steps words) := by
  unfold slotValue
  split
  · rename_i step hfind
    split
    · exact AssocList.clean_intercalate hwords
    · exact (AssocList.plain_of_isWord (hsteps step (List.mem_of_find?_eq_some hfind))).2
  · exact AssocList.clean_intercalate hwords

/-- The entries of a node are plain if those of its parts are. -/
theorem Tree.plain_entries {label : String} {rule start stop : Nat} {parts : List Tree}
    {p : Production} (hp : g.productions[rule]? = some p) (hlabel : AssocList.Clean label)
    (hspelling : ∀ w ∈ spelling, AssocList.Plain w)
    (hsteps : ∀ step ∈ p.steps, Text.IsWord step.symbol)
    (hparts : ∀ e ∈ entriesOf g spelling closing p.steps parts, AssocList.Plain e) :
    ∀ e ∈ (Tree.node rule start stop parts).entries g spelling closing label,
      AssocList.Plain e := by
  rw [Tree.entries, Grammar.stepsAt_eq hp]
  apply AssocList.plain_enclose hlabel
  -- a node whose name has a small letter shows what its parts show, and any other one pair
  split
  · exact hparts
  · intro e he
    rw [List.mem_singleton.1 he]
    apply AssocList.plain_slotEntry (AssocList.not_mem_trimStartWhile hlabel.1 _)
    apply Tree.clean_slotValue hsteps
    exact fun w hw => hspelling w (List.mem_of_mem_take (List.mem_of_mem_drop hw))

namespace Grammar.Expands

variable {words : List String} {steps : List Step} {pos stop : Nat} {parts : List Tree}

/-- The entries of all parts are plain, by induction on how the parts match the steps. Their names
are symbols of the grammar, which are words. -/
theorem plain_entriesOf (htidy : g.Tidy) (hspelling : ∀ w ∈ spelling, AssocList.Plain w)
    (h : g.Expands words steps pos stop parts)
    (hsteps : ∀ step ∈ steps, Text.IsWord step.symbol) :
    ∀ e ∈ Tree.entriesOf g spelling closing steps parts, AssocList.Plain e := by
  induction h with
  | nil pos => simp [Tree.entriesOf_nil]
  | word terminal _ _ _ ih =>
    rw [Tree.entriesOf_terminal terminal]
    exact ih fun step hstep => hsteps step (List.mem_cons_of_mem _ hstep)
  | @head step _ _ _ _ _ p _ _ nonterminal production _ _ _ _ ihInside ih =>
    have hinner : ∀ step ∈ p.steps, Text.IsWord step.symbol :=
      fun step hstep => htidy.isWord_at production hstep
    have hlabel := (AssocList.plain_of_isWord (hsteps step (List.mem_cons_self ..))).2
    rw [Tree.entriesOf_nonterminal nonterminal]
    intro e he
    rcases List.mem_append.1 he with he | he
    · exact Tree.plain_entries production hlabel hspelling hinner (ihInside hinner) e he
    · exact ih (fun step hstep => hsteps step (List.mem_cons_of_mem _ hstep)) e he

/-- The leaves of a derivation are symbols of the grammar. -/
theorem isWord_leavesOf (htidy : g.Tidy) (h : g.Expands words steps pos stop parts)
    (hsteps : ∀ step ∈ steps, Text.IsWord step.symbol) :
    ∀ leaf ∈ Tree.leavesOf g steps parts, Text.IsWord leaf.symbol := by
  induction h with
  | nil pos => simp [Tree.leavesOf_nil]
  | @word step _ _ _ _ _ terminal _ _ _ ih =>
    rw [Tree.leavesOf_terminal g terminal]
    intro leaf hleaf
    rcases List.mem_cons.1 hleaf with rfl | hleaf
    · exact hsteps leaf (List.mem_cons_self ..)
    · exact ih (fun step hstep => hsteps step (List.mem_cons_of_mem _ hstep)) leaf hleaf
  | head nonterminal production _ _ _ _ ihInside ih =>
    rw [Tree.leavesOf_nonterminal g nonterminal, Tree.leaves_node production]
    intro leaf hleaf
    -- a leaf is inside this part, whose production is one of the grammar, or in a later one
    rcases List.mem_append.1 hleaf with hleaf | hleaf
    · exact ihInside (fun step hstep => htidy.isWord_at production hstep) leaf hleaf
    · exact ih (fun step hstep => hsteps step (List.mem_cons_of_mem _ hstep)) leaf hleaf

end Grammar.Expands

/-- What holds of the symbols of a grammar and of the words that were said holds of what is spelled,
word for word. -/
theorem forall_zipWith_spelled {P : String → Prop} {leaves : List Step} {words : List String}
    (hleaves : ∀ leaf ∈ leaves, P leaf.symbol) (hwords : ∀ w ∈ words, P w) :
    ∀ w ∈ List.zipWith Step.spelled leaves words, P w := by
  induction leaves generalizing words with
  | nil => simp
  | cons leaf leaves ih =>
    cases words with
    | nil => simp
    | cons word words =>
      intro w hw
      rw [List.zipWith_cons_cons] at hw
      rcases List.mem_cons.1 hw with rfl | hw
      -- a wildcard is spelled as the word that it takes up, and any other leaf as its symbol
      · unfold Step.spelled
        split
        · exact hwords word (List.mem_cons_self ..)
        · exact hleaves leaf (List.mem_cons_self ..)
      · apply ih _ _ w hw
        · exact fun leaf hleaf => hleaves leaf (List.mem_cons_of_mem _ hleaf)
        · exact fun word hword => hwords word (List.mem_cons_of_mem _ hword)

namespace Analysis

/-- A word of the spelling is a symbol of the grammar or was said. -/
theorem Selected.forall_spelling {P : String → Prop} {words : List String} {a : Analysis}
    {s : ChartState} (htidy : g.Tidy) (h : Selected g words a s)
    (hsymbols : ∀ symbol, Text.IsWord symbol → P symbol) (hwords : ∀ w ∈ words, P w) :
    ∀ w ∈ a.spelling, P w := by
  rw [h.spelling, Grammar.spell_eq_zipWith h.derives]
  obtain ⟨p, parts, hp, htree, hexpands⟩ := Grammar.exists_of_mem_derivations h.derives
  rw [htree, Tree.leaves_node hp]
  have hleaves := hexpands.isWord_leavesOf htidy fun step hstep => htidy.isWord_at hp hstep
  exact forall_zipWith_spelled (fun leaf hleaf => hsymbols _ (hleaves leaf hleaf)) hwords

/-- The spelling of a text is made of plain words. -/
theorem Selected.plain_spelling {text : String} {a : Analysis} {s : ChartState} (htidy : g.Tidy)
    (h : Selected g (tokenize true text) a s) : ∀ w ∈ a.spelling, AssocList.Plain w :=
  h.forall_spelling htidy (fun _ => AssocList.plain_of_isWord)
    fun _ hw => AssocList.plain_of_solid (solid_of_mem_tokenize hw)

/-- The association list of a selected derivation is put together from its entries: a tour of the
cursor through the whole tree collects these, and it starts and ends at the root. -/
theorem assocList_eq_ofEntries (hg : g.Coherent) {words : List String} {a : Analysis} {s : ChartState}
    {p : Production} (hs : a.candidate? none = some s)
    (hderives : a.chart.tree s ∈ g.derivations words s.item.rule)
    (hp : g.productions[s.item.rule]? = some p) (closing : Bool) :
    (a.assocList g closing).result
      = .ok (.ofEntries ((a.chart.tree s).entries g a.spelling closing p.head)) := by
  have htour : AssocList.Tour g a.spelling closing (.root (a.chart.tree s))
      ((a.chart.tree s).entries g a.spelling closing p.head) (.root (a.chart.tree s)) :=
    AssocList.tour_of_mem_derivations hg hderives hp
  rw [assocList_of_candidate? hs, htour.build_eq]
  rfl

/-- The association list of a text that parses, if heads have no tab and no space at their end. It has
the entries of the selected derivation, which is named by its head; they are read back from it as they
are; and a cursor that is moved from the root to collect them is at the root again in the end. -/
theorem assocList_collects {g : Grammar} (hg : g.Built) (status : Nat → Status)
    (hheads : ∀ p ∈ g.productions, AssocList.Clean p.head) (text : String) (conf : Confidence)
    (closing : Bool)
    (hparses : (parse (g.withStatuses status) (.text text) conf).state.candidates ≠ []) :
    let grammar := g.withStatuses status
    let a := (parse grammar (.text text) conf).state
    let o := a.assocList grammar closing
    ∃ s p, a.candidate? none = some s ∧ grammar.productions[s.item.rule]? = some p
      ∧ a.chart.tree s ∈ grammar.derivations (tokenize true text) s.item.rule
      ∧ let tree := a.chart.tree s
        let entries := tree.entries grammar a.spelling closing p.head
        o.result = .ok (.ofEntries entries)
          ∧ (AssocList.ofEntries entries).entries = entries
          ∧ AssocList.Tour grammar a.spelling closing (.root tree) entries (.root tree)
          ∧ o.state.cursor = .root tree
          ∧ o.state.cursor.focus grammar = .ok (some p.head) := by
  intro grammar a o
  have hcoherent : grammar.Coherent := hg.coherent.withStatuses status
  have htidy : grammar.Tidy := hg.tidy.withStatuses status
  obtain ⟨s, hs⟩ := exists_selected hcoherent hparses
  obtain ⟨p, parts, hp, htree, hexpands⟩ := Grammar.exists_of_mem_derivations hs.derives
  have hhead : AssocList.Clean p.head := by
    obtain ⟨q, hq, rfl⟩ := Array.mem_map.1 (Array.mem_of_getElem? hp)
    exact hheads q hq
  refine ⟨s, p, hs.candidate, hp, hs.derives, ?_⟩
  intro tree entries
  have htour : AssocList.Tour grammar a.spelling closing (.root tree) entries (.root tree) :=
    AssocList.tour_of_mem_derivations hcoherent hs.derives hp
  -- the tour says what is collected and where the cursor ends, and building follows it
  have hassoc : o = ⟨{ a with cursor := .root tree }, .ok (.ofEntries entries), []⟩ := by
    show a.assocList grammar closing = _
    rw [assocList_of_candidate? hs.candidate, htour.build_eq]
    rfl
  refine ⟨by rw [hassoc], ?_, htour, by rw [hassoc], ?_⟩
  -- only the name of the root is not a symbol, so only there the heads matter
  · apply AssocList.entries_ofEntries
    have hspelling := hs.plain_spelling htidy
    have hsteps : ∀ step ∈ p.steps, Text.IsWord step.symbol :=
      fun step hstep => htidy.isWord_at hp hstep
    show ∀ e ∈ (a.chart.tree s).entries grammar a.spelling closing p.head, AssocList.Plain e
    rw [htree]
    exact Tree.plain_entries hp hhead hspelling hsteps
      (hexpands.plain_entriesOf htidy hspelling hsteps)
  · rw [hassoc]
    show (Cursor.root (a.chart.tree s)).focus grammar = _
    rw [htree]
    exact (Cursor.at_root hp parts).focus

/-! ## A grammar with a slot -/

/-- A grammar for a phrase with a slot that takes up one word. -/
def outings : Grammar :=
  ((Grammar.expand { dictation := 5, maxAlerts := 10 } "!go" "go <PLACE>" "").grammar.expand
    "PLACE" "#" "").grammar

theorem built_outings : outings.Built :=
  ((Grammar.Built.empty 5 10).expand "!go" "go <PLACE>" "").expand "PLACE" "#" ""

theorem productions_outings :
    outings.productions
      = #[⟨0, "!go", [⟨"go", false⟩, ⟨"PLACE", true⟩], .active⟩,
        ⟨1, "PLACE", [⟨"#", false⟩], .active⟩] := by
  have hgo : Grammar.Forms "!go" (Text.words "go <PLACE>") [⟨"go", false⟩, ⟨"PLACE", true⟩] :=
    Grammar.forms_iff.2 ⟨by decide, by decide⟩
  have hplace : Grammar.Forms "PLACE" (Text.words "#") [⟨"#", false⟩] :=
    Grammar.forms_iff.2 ⟨by decide, by decide⟩
  obtain ⟨hbuilt, hfirst⟩ := (Grammar.Built.empty 5 10).expand_plain (by decide) (by decide) hgo
    (by decide)
  obtain ⟨_, hsecond⟩ := hbuilt.expand_plain (by decide) (by decide) hplace (by rw [hfirst]; decide)
  rw [outings, hsecond, hfirst]
  rfl

/-- The grammar above, with productions that may start a sentence. -/
abbrev topOutings : Grammar := outings.withStatuses fun _ => .top

theorem productions_topOutings :
    topOutings.productions
      = #[⟨0, "!go", [⟨"go", false⟩, ⟨"PLACE", true⟩], .top⟩, ⟨1, "PLACE", [⟨"#", false⟩], .top⟩] := by
  simp [topOutings, Grammar.withStatuses, productions_outings]

/-- The two productions, with the statuses of this grammar. -/
theorem production_topOutings {rule : Nat} {p : Production} :
    topOutings.productions[rule]? = some p
      ↔ (rule = 0 ∧ p = ⟨0, "!go", [⟨"go", false⟩, ⟨"PLACE", true⟩], .top⟩)
        ∨ (rule = 1 ∧ p = ⟨1, "PLACE", [⟨"#", false⟩], .top⟩) := by
  rw [productions_topOutings]
  match rule with
  | 0 => simp [eq_comm]
  | 1 => simp [eq_comm]
  | rule + 2 => simp

/-- The derivation of a phrase of two words. -/
def outing : Tree := .node 0 0 2 [.word, .node 1 1 2 [.word]]

/-- The phrase has one derivation. -/
theorem mem_derivations_topOutings {word : String} {rule : Nat} {tree : Tree} :
    tree ∈ topOutings.derivations ["Go", word] rule ↔ rule = 0 ∧ tree = outing :=
  Grammar.mem_derivations_of_slot production_topOutings ⟨rfl, rfl⟩ rfl rfl rfl rfl rfl rfl (by decide)
    (.inr (by decide)) (.inl (by decide))

theorem tokenize_outing : tokenize true "Go home" = ["Go", "home"] := by decide +kernel

/-- The phrase is two words. -/
theorem toWords_outing : (Sentence.text "Go home").toWords = ["Go", "home"] := tokenize_outing

/-- Such a phrase is derived, so there are candidates. The wildcard takes any second word. -/
theorem candidates_outing {sentence : Sentence} {word : String}
    (hwords : sentence.toWords = ["Go", word]) :
    (parse topOutings sentence .absent).state.candidates ≠ [] := by
  have hsome : sentence.toWords ≠ [] := by
    rw [hwords]
    exact List.cons_ne_nil _ _
  have hderives : outing ∈ topOutings.derivations sentence.toWords 0 := by
    rw [hwords]
    exact mem_derivations_topOutings.2 ⟨rfl, rfl⟩
  exact candidates_ne_nil (built_outings.coherent.withStatuses _) rfl hsome
    (production_topOutings.2 (.inl ⟨rfl, rfl⟩)) rfl hderives

theorem candidates_topOutings :
    (parse topOutings (.text "Go home") .absent).state.candidates ≠ [] :=
  candidates_outing toWords_outing

/-- The selected derivation of a phrase is the only one. -/
theorem exists_selected_phrase {sentence : Sentence} {word : String}
    (hwords : sentence.toWords = ["Go", word]) :
    ∃ s, Selected topOutings ["Go", word] (parse topOutings sentence .absent).state s
      ∧ topOutings.productions[s.item.rule]?
        = some ⟨0, "!go", [⟨"go", false⟩, ⟨"PLACE", true⟩], .top⟩
      ∧ (parse topOutings sentence .absent).state.chart.tree s = outing := by
  obtain ⟨s, hs⟩ :=
    exists_selected (built_outings.coherent.withStatuses _) (candidates_outing hwords)
  rw [hwords] at hs
  obtain ⟨hrule, htree⟩ := mem_derivations_topOutings.1 hs.derives
  exact ⟨s, hs, production_topOutings.2 (.inl ⟨hrule, rfl⟩), htree⟩

/-- The wildcard takes up its word as it was said. -/
theorem spelling_outing {sentence : Sentence} {word : String}
    (hwords : sentence.toWords = ["Go", word]) :
    (parse topOutings sentence .absent).state.spelling = ["go", word] := by
  obtain ⟨s, hs, _, htree⟩ := exists_selected_phrase hwords
  have hslot := @production_topOutings 1 ⟨1, "PLACE", [⟨"#", false⟩], .top⟩
  rw [hs.spelling, Grammar.spell_eq_zipWith hs.derives, htree, outing,
    Tree.leaves_node (production_topOutings.2 (.inl ⟨rfl, rfl⟩)), Tree.leavesOf_terminal _ rfl,
    Tree.leavesOf_nonterminal _ rfl, Tree.leaves_node (hslot.2 (.inr ⟨rfl, rfl⟩)),
    Tree.leavesOf_terminal _ rfl, Tree.leavesOf_nil]
  rfl

theorem spelling_topOutings :
    (parse topOutings (.text "Go home") .absent).state.spelling = ["go", "home"] :=
  spelling_outing toWords_outing

/-- The entries of the derivation, by the recursion on the tree. -/
theorem entries_outing :
    outing.entries topOutings ["go", "home"] true "!go" = ["!go", "PLACE=home", "!"] := by
  have hphrase : "!go".toList.any Text.isLower = true := by decide
  have hslot : "PLACE".toList.any Text.isLower = false := by decide
  have hproduction := @production_topOutings 1 ⟨1, "PLACE", [⟨"#", false⟩], .top⟩
  rw [outing, Tree.entries, Grammar.stepsAt_eq (production_topOutings.2 (.inl ⟨rfl, rfl⟩)),
    if_pos hphrase, Tree.entriesOf_terminal rfl, Tree.entriesOf_nonterminal rfl, Tree.entriesOf_nil,
    Tree.entries, Grammar.stepsAt_eq (hproduction.2 (.inr ⟨rfl, rfl⟩)),
    if_neg (by rw [hslot]; exact Bool.false_ne_true)]
  decide

/-- The phrase is opened and closed, and its slot has the word that the wildcard took up. -/
theorem assocList_collects_outing :
    ((parse topOutings (.text "Go home") .absent).state.assocList topOutings true).result
        = .ok ⟨"\t!go\tPLACE=home\t!"⟩
      ∧ (AssocList.mk "\t!go\tPLACE=home\t!").entries = ["!go", "PLACE=home", "!"] := by
  have hheads : ∀ p ∈ outings.productions, AssocList.Clean p.head := by
    rw [productions_outings]
    intro p hp
    simp only [List.mem_toArray, List.mem_cons, List.not_mem_nil, or_false] at hp
    rcases hp with rfl | rfl
    · exact ⟨by decide, by decide⟩
    · exact ⟨by decide, by decide⟩
  obtain ⟨s, p, _, hp, hderives, hresult, hentries, _⟩ :=
    assocList_collects built_outings (fun _ => .top) hheads "Go home" .absent true
      candidates_topOutings
  rw [tokenize_outing] at hderives
  obtain ⟨hrule, htree⟩ := mem_derivations_topOutings.1 hderives
  rw [hrule] at hp
  -- only the production of the phrase may start a sentence, so it is the selected one
  have hhead : p.head = "!go" := by
    rcases production_topOutings.1 hp with ⟨_, rfl⟩ | ⟨hone, _⟩
    · rfl
    · cases hone
  rw [htree, hhead, spelling_topOutings, entries_outing] at hresult hentries
  exact ⟨hresult, hentries⟩

end Analysis

end Utterance
