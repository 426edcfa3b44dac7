import Utterance.Proofs.Cursor.Layout
import Utterance.Proofs.Grammar.Written

/-!
# Renderings of sentences

The selected derivation of a sentence as lines of text. The lines are the rows of its outline. If no
word and no name has a line break, cutting the text at line breaks gives the rows back, and if the
words are not empty and have no space, as those of a text, cutting the lines of words at spaces gives
the spelling back, each word once. A sentence that is given as words may have words with spaces in
them, which are not told from several words in a line.
-/

namespace Utterance

variable {g : Grammar} {words spelling : List String}

/-! ## Lines that are cut again -/

/-- The pieces of a text between spaces, without empty ones. -/
def Text.atSpaces (s : String) : List String :=
  ((Text.pieces ' ' s.toList).filter (!·.isEmpty)).map String.ofList

namespace Row

variable {depth first stop : Nat}

/-- An indent is two spaces for each step. -/
theorem toList_replicate (depth : Nat) :
    (Text.replicate depth "  ").toList = List.replicate (2 * depth) ' ' := by
  induction depth with
  | zero => rfl
  | succ depth ih =>
    rw [replicate_succ, String.toList_append, ih, Nat.mul_succ, List.replicate_add]
    rfl

/-- A row of words is cut at spaces into its words, if these are not empty and have no space. The
indentation is lost with the empty pieces. -/
theorem atSpaces_text (h : ∀ w ∈ spelling, w.toList ≠ [] ∧ ' ' ∉ w.toList) :
    Text.atSpaces ((Row.words depth first stop).text spelling)
      = (Row.words depth first stop).shown spelling := by
  have hshown : ∀ w ∈ (spelling.take stop).drop first, w.toList ≠ [] ∧ ' ' ∉ w.toList :=
    fun w hw => h w (List.mem_of_mem_take (List.mem_of_mem_drop hw))
  rw [shown, text]
  generalize (spelling.take stop).drop first = ws at hshown
  -- the indentation gives empty pieces only, the words are pieces that are not empty
  have hfilter : (ws.map String.toList).filter (!·.isEmpty) = ws.map String.toList := by
    rw [List.filter_eq_self]
    intro cs hcs
    obtain ⟨w, hw, rfl⟩ := List.mem_map.1 hcs
    simpa using (hshown w hw).1
  rw [Text.atSpaces, String.toList_append, toList_replicate, String.toList_intercalate,
    Text.pieces_replicate_append, List.filter_append]
  cases ws with
  | nil => simp [Text.pieces]
  | cons w ws =>
    rw [show " ".toList = [' '] from rfl, Text.pieces_intercalate (by simp) ?_, hfilter]
    · simp [Function.comp_def]
    · intro cs hcs
      obtain ⟨w', hw', rfl⟩ := List.mem_map.1 hcs
      exact (hshown w' hw').2

/-- An indent does not change the words of a line. -/
theorem words_replicate_append (depth : Nat) (s : String) :
    Text.words (Text.replicate depth "  " ++ s) = Text.words s := by
  rw [Text.words, String.toList_append, toList_replicate, Text.words]
  congr 1
  induction 2 * depth with
  | zero => rfl
  | succ n ih =>
    rw [List.replicate_succ, List.cons_append, Text.wordRuns, if_pos (by decide)]
    exact ih

/-- A row of words is split into its words, if these are not empty and have no blank. -/
theorem words_text (h : ∀ w ∈ spelling, Text.IsWord w) :
    Text.words ((Row.words depth first stop).text spelling)
      = (Row.words depth first stop).shown spelling := by
  rw [shown, text, words_replicate_append]
  exact Text.words_intercalate fun w hw => h w (List.mem_of_mem_take (List.mem_of_mem_drop hw))

/-- A row has no line break if its name and its words have none. -/
theorem newline_not_mem_text {row : Row} (hspelling : ∀ w ∈ spelling, '\n' ∉ w.toList)
    (htitle : ∀ title ∈ row.title?, '\n' ∉ title.2.toList) : '\n' ∉ (row.text spelling).toList := by
  cases row with
  | title depth label =>
    have hlabel : '\n' ∉ label.toList := htitle (depth, label) rfl
    simp [text, toList_replicate, hlabel]
  | words depth first stop =>
    have hline : '\n' ∉ (" ".intercalate ((spelling.take stop).drop first)).toList := by
      by_cases hnil : (spelling.take stop).drop first = []
      · simp [hnil]
      · apply Text.intercalate_induct (P := fun cs => '\n' ∉ cs) _ hnil
        · exact fun w hw => hspelling w (List.mem_of_mem_take (List.mem_of_mem_drop hw))
        · exact fun hxs hys => by simp [hxs, hys]
    rw [text, String.toList_append, toList_replicate, List.mem_append, not_or]
    exact ⟨by simp, hline⟩

end Row

/-- The names of the nodes inside are symbols of the grammar, so they have no blanks and no line
breaks. -/
theorem Grammar.Expands.isWord_preorders (htidy : g.Tidy) {steps : List Step} {pos stop : Nat}
    {parts : List Tree} (h : g.Expands words steps pos stop parts)
    (hsteps : ∀ step ∈ steps, Text.IsWord step.symbol) (depth : Nat) :
    ∀ title ∈ Outline.preorders depth (Tree.outlinesOf g steps parts), Text.IsWord title.2 := by
  induction h generalizing depth with
  | nil pos =>
    rw [Tree.outlinesOf_nil, Outline.preorders]
    exact fun _ h => absurd h List.not_mem_nil
  | word terminal _ _ _ ih =>
    rw [Tree.outlinesOf_terminal terminal]
    exact ih (fun step hstep => hsteps step (List.mem_cons_of_mem _ hstep)) depth
  | head nonterminal production _ _ _ _ ihInside ih =>
    rw [Tree.outlinesOf_nonterminal nonterminal, Grammar.stepsAt_eq production, Outline.preorders,
      Outline.preorder]
    intro title htitle
    -- the title of a part is the symbol of its step
    rcases List.mem_append.1 htitle with htitle | htitle
    · rcases List.mem_cons.1 htitle with rfl | htitle
      · exact hsteps _ (List.mem_cons_self ..)
      · exact ihInside (fun step hstep => htidy.isWord_at production hstep) (depth + 1) title htitle
    · exact ih (fun step hstep => hsteps step (List.mem_cons_of_mem _ hstep)) depth title htitle

namespace Analysis

variable {a : Analysis} {s : ChartState} {p : Production} {o : Outline}

theorem Selected.length_spelling (h : Selected g words a s) : a.spelling.length = words.length := by
  have hleaves := (Grammar.forall₂_leaves h.derives).length_eq
  rw [h.spelling, Grammar.spell_eq_zipWith h.derives, List.length_zipWith, hleaves, Nat.min_self]

/-- The selected derivation is shown by the rows of its outline. -/
theorem Selected.treeText_eq (hg : g.Coherent) (h : Selected g words a s)
    (hp : g.productions[s.item.rule]? = some p) (ho : (a.chart.tree s).outline? g p.head = some o) :
    (a.treeText g).result = .ok ("\n".intercalate ((o.layout 0).map (Row.text a.spelling))) := by
  have hlines := Cursor.lines_root hg hp h.derives ho a.spelling
  simp only [treeText, top, h.candidate, hlines, Except.map, afterWalk]

/-- The top category is the first name of the outline that has no small letter. -/
theorem Selected.topCategory_eq (h : Selected g words a s)
    (hp : g.productions[s.item.rule]? = some p) (ho : (a.chart.tree s).outline? g p.head = some o) :
    (a.topCategory g).result
      = .ok (((o.preorder 0).map Prod.snd).find? fun l => !l.toList.any Text.isLower) := by
  obtain ⟨major, hmajor, hfound⟩ := Cursor.finds_root hp h.derives ho
  simp only [topCategory, top, h.candidate, hmajor, ← hfound]
  cases major <;> rfl

/-- The rows have each word of the spelling once, in order. -/
theorem Selected.flatMap_positions (hg : g.Coherent) (h : Selected g words a s)
    (hp : g.productions[s.item.rule]? = some p) (ho : (a.chart.tree s).outline? g p.head = some o) :
    (o.layout 0).flatMap Row.positions = List.range a.spelling.length := by
  obtain ⟨parts, _, _, houtlined⟩ :=
    Grammar.exists_parts_of_mem_derivations hp h.derives p.head
  obtain rfl := Option.some.inj (houtlined.outline.symm.trans ho)
  rw [houtlined.flatMap_positions hg, h.length_spelling, List.range_eq_range', Nat.sub_zero]

/-- Symbols have no blank, so the spelling has a space only if the sentence has one. -/
theorem Selected.spaceless_spelling (htidy : g.Tidy) (h : Selected g words a s)
    (hwords : ∀ w ∈ words, Token.Solid w) :
    ∀ w ∈ a.spelling, w.toList ≠ [] ∧ ' ' ∉ w.toList := by
  refine h.forall_spelling (P := fun w => w.toList ≠ [] ∧ ' ' ∉ w.toList) htidy ?_ ?_
  · exact fun symbol hword => ⟨hword.1, fun hmem => absurd (hword.2 _ hmem) (by decide)⟩
  · exact fun w hw => ⟨(hwords w hw).1, fun hmem => absurd ((hwords w hw).2 _ hmem) (by decide)⟩

/-- The names in an outline have no line break if the head of the production has none. -/
theorem Selected.newline_not_mem_preorder (htidy : g.Tidy) (h : Selected g words a s)
    (hp : g.productions[s.item.rule]? = some p) (ho : (a.chart.tree s).outline? g p.head = some o)
    (hhead : '\n' ∉ p.head.toList) : ∀ title ∈ o.preorder 0, '\n' ∉ title.2.toList := by
  obtain ⟨parts, _, hexpands, houtlined⟩ :=
    Grammar.exists_parts_of_mem_derivations hp h.derives p.head
  obtain rfl := Option.some.inj (houtlined.outline.symm.trans ho)
  rw [Outline.preorder]
  intro title htitle
  rcases List.mem_cons.1 htitle with rfl | htitle
  · exact hhead
  -- every other name is a symbol of a step, and symbols are words
  · have hword := hexpands.isWord_preorders htidy (fun step hstep => htidy.isWord_at hp hstep) 1
      title htitle
    exact fun hmem => absurd (hword.2 _ hmem) (by decide)

/-- Cutting the rendering at line breaks gives the rows, since neither words nor names have line
breaks. -/
theorem Selected.pieces_treeText (htidy : g.Tidy) (h : Selected g words a s)
    (hp : g.productions[s.item.rule]? = some p) (ho : (a.chart.tree s).outline? g p.head = some o)
    (hhead : '\n' ∉ p.head.toList) (hwords : ∀ w ∈ words, '\n' ∉ w.toList) :
    (Text.pieces '\n' ("\n".intercalate ((o.layout 0).map (Row.text a.spelling))).toList).map
        String.ofList = (o.layout 0).map (Row.text a.spelling) := by
  have hspelling := h.forall_spelling htidy
    (fun symbol hword hmem => absurd (hword.2 '\n' hmem) (by decide)) hwords
  have htitles := h.newline_not_mem_preorder htidy hp ho hhead
  rw [← Outline.filterMap_title?_layout] at htitles
  -- cutting an empty text gives one piece, so there has to be a row
  have hne : o.layout 0 ≠ [] := by
    obtain ⟨label, start, stop, inner⟩ := o
    rw [Outline.layout]
    exact List.cons_ne_nil _ _
  rw [String.toList_intercalate, show "\n".toList = ['\n'] from rfl,
    Text.pieces_intercalate (by simpa using hne) ?_]
  · simp [Function.comp_def]
  · intro cs hcs
    simp only [List.mem_map, exists_exists_and_eq_and] at hcs
    obtain ⟨row, hrow, rfl⟩ := hcs
    apply Row.newline_not_mem_text hspelling
    exact fun title htitle => htitles title (List.mem_filterMap.2 ⟨row, hrow, htitle⟩)

end Analysis

/-- Rows of words that are cut into their words give all words, if cutting a row gives its words.
Rows with a name show no words, so they do not matter. -/
theorem Row.flatMap_cut {cut : String → List String} {rows : List Row}
    (hcut : ∀ depth first stop, cut ((Row.words depth first stop).text spelling)
      = (Row.words depth first stop).shown spelling) :
    ((rows.filter (·.title?.isNone)).map (Row.text spelling)).flatMap cut
      = rows.flatMap (Row.shown spelling) := by
  induction rows with
  | nil => rfl
  | cons row rows ih =>
    cases row with
    | title => simpa [title?, shown] using ih
    | words depth first stop => simpa [title?, hcut] using ih

namespace Analysis

/-- After a parse that found candidates, each node and each word of the selected derivation is shown
once. The lines are the rows of the outline; the rows of names are its nodes in preorder with two
spaces for each level; the other rows have consecutive words, each position once. If the words are not
empty and have no space and no line break in them, as those of a text, cutting the lines of words at
spaces gives the spelling, and cutting the whole at line breaks gives the lines, if there is no line
break in the head of the production. If the words have no blanks at all they are split at blanks as
well. The top category is the first name in preorder without a small letter. -/
theorem treeText_shows_once {g : Grammar} (hg : g.Built) (status : Nat → Status)
    (sentence : Sentence) (conf : Confidence)
    (hparses : (parse (g.withStatuses status) sentence conf).state.candidates ≠ []) :
    let grammar := g.withStatuses status
    let a := (parse grammar sentence conf).state
    ∃ s p o, a.candidate? none = some s ∧ grammar.productions[s.item.rule]? = some p
      ∧ a.chart.tree s ∈ grammar.derivations sentence.toWords s.item.rule
      ∧ (a.chart.tree s).outline? grammar p.head = some o
      ∧ let rows := o.layout 0
        let lines := rows.map (Row.text a.spelling)
        let wordLines := (rows.filter (·.title?.isNone)).map (Row.text a.spelling)
        (a.treeText grammar).result = .ok ("\n".intercalate lines)
          ∧ rows.filterMap Row.title? = o.preorder 0
          ∧ rows.flatMap Row.positions = List.range a.spelling.length
          ∧ rows.flatMap (Row.shown a.spelling) = a.spelling
          ∧ ((∀ w ∈ sentence.toWords, Token.Solid w) → wordLines.flatMap Text.atSpaces = a.spelling
            ∧ ('\n' ∉ p.head.toList →
              (Text.pieces '\n' ("\n".intercalate lines).toList).map String.ofList = lines))
          ∧ (∀ text, sentence = .text text → ∀ w ∈ sentence.toWords, Token.Solid w)
          ∧ ((∀ w ∈ sentence.toWords, Text.IsWord w) → wordLines.flatMap Text.words = a.spelling)
          ∧ (a.topCategory grammar).result
            = .ok (((o.preorder 0).map Prod.snd).find? fun l => !l.toList.any Text.isLower) := by
  intro grammar a
  have hcoherent : grammar.Coherent := hg.coherent.withStatuses status
  have htidy : grammar.Tidy := hg.tidy.withStatuses status
  obtain ⟨s, hs⟩ := exists_selected hcoherent hparses
  obtain ⟨p, _, hp, _, _⟩ := Grammar.exists_of_mem_derivations hs.derives
  obtain ⟨parts, _, _, houtlined⟩ :=
    Grammar.exists_parts_of_mem_derivations hp hs.derives p.head
  have ho := houtlined.outline
  -- the rows cover every position of the sentence once, and all that is said of words follows from
  -- that
  have hpositions := hs.flatMap_positions hcoherent hp ho
  have hshown := Row.flatMap_shown rfl hpositions
  refine ⟨s, p, _, hs.candidate, hp, hs.derives, ho, hs.treeText_eq hcoherent hp ho,
    Outline.filterMap_title?_layout 0 _, hpositions, hshown, fun hwords => ⟨?_, fun hhead => ?_⟩,
    ?_, fun hwords => ?_, hs.topCategory_eq hp ho⟩
  -- words without blanks are cut apart again at the spaces between them
  · rw [Row.flatMap_cut fun _ _ _ => Row.atSpaces_text (hs.spaceless_spelling htidy hwords)]
    exact hshown
  · apply hs.pieces_treeText htidy hp ho hhead
    exact fun w hw hmem => absurd ((hwords w hw).2 _ hmem) (by decide)
  · rintro text rfl w hw
    exact solid_of_mem_tokenize hw
  · have hspelling := hs.forall_spelling htidy (fun _ hword => hword) hwords
    rw [Row.flatMap_cut fun _ _ _ => Row.words_text hspelling]
    exact hshown

/-- An outing is shown by four lines, and its slot is the top category. -/
theorem treeText_shows_outing :
    let a := (parse topOutings (.text "Go home") .absent).state
    a.candidates ≠ []
      ∧ (a.treeText topOutings).result = .ok "<!go>\n  go\n  <PLACE>\n    home"
      ∧ (a.topCategory topOutings).result = .ok (some "PLACE") := by
  intro a
  obtain ⟨s, p, o, hcandidate, hp, _, ho, htext, _, _, _, _, _, _, hcategory⟩ :=
    treeText_shows_once built_outings (fun _ => .top) (.text "Go home") .absent candidates_topOutings
  obtain ⟨s', hs', hp', htree⟩ := exists_selected_phrase toWords_outing
  obtain rfl := Option.some.inj (hs'.candidate.symm.trans hcandidate)
  obtain rfl := Option.some.inj (hp'.symm.trans hp)
  rw [htree, outline?_outing, Option.some.injEq] at ho
  rw [← ho, spelling_topOutings] at htext
  rw [← ho] at hcategory
  refine ⟨candidates_topOutings, ?_, ?_⟩
  · rw [htext]
    decide
  · rw [hcategory]
    decide

/-- A word with a space looks like two words, so splitting the lines does not give the spelling
back. -/
theorem treeText_splits_word :
    let a := (parse topOutings (.words ["Go", "new york"]) .absent).state
    a.candidates ≠ [] ∧ a.spelling = ["go", "new york"]
      ∧ (a.treeText topOutings).result = .ok "<!go>\n  go\n  <PLACE>\n    new york"
      ∧ ["  go", "    new york"].flatMap Text.words ≠ a.spelling := by
  intro a
  have hwords : (Sentence.words ["Go", "new york"]).toWords = ["Go", "new york"] := rfl
  obtain ⟨s, hs, hp, htree⟩ := exists_selected_phrase hwords
  have ho := outline?_outing
  rw [← htree] at ho
  have htext := hs.treeText_eq (built_outings.coherent.withStatuses _) hp ho
  rw [spelling_outing hwords] at htext
  refine ⟨candidates_outing hwords, spelling_outing hwords, ?_, ?_⟩
  · rw [htext]
    decide
  · rw [spelling_outing hwords]
    decide

end Analysis

end Utterance
