import Utterance.Proofs.Grammar.Representation
import Utterance.Proofs.Rule.Spacing

/-!
# Sugar and blanks

Lines of the same pieces are rewritten alike, so their plain variants have the same words, and a grammar
takes nothing else from a line. So a line may be written with or without blanks around its signs. But
where a wildcard takes the place of a question mark that touches a word, that word stays in one piece.
-/

namespace Utterance

namespace Sugar

variable {line line' before after : List Char} {c : Char} {limit : Nat}

/-! ## Variants -/

/-- What the variants of a line are, said without the proof that there are not ever more of them. -/
theorem variants_eq (limit : Nat) (line : List Char) :
    variants limit line =
      match Text.cutAt '(' line with
      | (before, some after) =>
        variants limit (before ++ ' ' :: (closeGroup 0 after).1 ++ ' ' :: (closeGroup 0 after).2)
          ++ variants limit (before ++ ' ' :: (closeGroup 0 after).2)
      | (_, none) =>
        match Text.cutAt '+' line with
        | (before, some after) =>
          (List.range limit).flatMap fun n => variants limit (before ++ ' ' :: dictated (n + 1) ++ after)
        | (_, none) =>
          match Text.cutAt '*' line with
          | (before, some after) =>
            variants limit (before ++ ' ' :: after)
              ++ (List.range limit).flatMap fun n =>
                variants limit (before ++ ' ' :: dictated (n + 1) ++ after)
          | (_, none) =>
            match Text.cutAt '?' line with
            | (before, some after) =>
              variants limit (before ++ ' ' :: after) ++ variants limit (before ++ '#' :: after)
            | (_, none) => [line] := by
  -- the cuts are the same on both sides, one for each kind of sugar
  rw [variants.eq_def]
  split
  · rename_i h
    simp only [h]
  · rename_i h
    simp only [h]
    split
    · rename_i h
      simp only [h]
    · rename_i h
      simp only [h]
      split
      · rename_i h
        simp only [h]
      · rename_i h
        simp only [h]
        split
        · rename_i h
          simp only [h]
        · rename_i h
          simp only [h]

/-- The parentheses of an unmarked line nest, as it has none. -/
theorem Unmarked.isNested (h : Unmarked line) : isNested line = true := by
  refine isNested_of_not_mem (fun hmem => ?_) fun hmem => ?_
  · exact absurd (h _ hmem) (by decide)
  · exact absurd (h _ hmem) (by decide)

/-- Lines of the same pieces have first groups of the same pieces. -/
theorem exists_group_of_pieces_eq (hnested : isNested line = true) (h : pieces line' = pieces line)
    (hcut : Text.cutAt '(' line = (before, some after)) :
    ∃ before' after', Text.cutAt '(' line' = (before', some after') ∧ pieces before' = pieces before
      ∧ pieces (closeGroup 0 after').1 = pieces (closeGroup 0 after).1
      ∧ pieces (closeGroup 0 after').2 = pieces (closeGroup 0 after).2 := by
  obtain ⟨before', after', hcut', hbefore, hafter⟩ := exists_cutAt_of_pieces_eq (by decide) h hcut
  have hfirst := not_mem_cutAt '(' line
  have hfirst' := not_mem_cutAt '(' line'
  have hnested' := isNested_of_pieces_eq h hnested
  rw [hcut] at hfirst
  rw [hcut'] at hfirst'
  -- the group closes within the rest of either line, since both lines nest
  rw [eq_of_cutAt hcut] at hnested
  rw [eq_of_cutAt hcut'] at hnested'
  exact ⟨before', after', hcut', hbefore, pieces_closeGroup hafter
    (nestedFrom_zero_append hfirst hnested).2 (nestedFrom_zero_append hfirst' hnested').2⟩

/-- The variants of a line whose only signs are question marks. -/
theorem Unmarked.variants_eq (h : Unmarked line) (limit : Nat) :
    variants limit line =
      match Text.cutAt '?' line with
      | (before, some after) =>
        variants limit (before ++ ' ' :: after) ++ variants limit (before ++ '#' :: after)
      | (_, none) => [line] := by
  -- no other sign is left, so the line is not cut before it comes to the question marks
  have hnot : ∀ {c : Char}, isMark c = true → c ∉ line := by
    intro c hc hmem
    rw [h c hmem] at hc
    cases hc
  rw [Sugar.variants_eq, Text.cutAt_of_not_mem (hnot (by decide)), Text.cutAt_of_not_mem (hnot (by decide)),
    Text.cutAt_of_not_mem (hnot (by decide))]

/-- What takes the place of their first question marks leaves such lines with the same pieces. A
question mark is no mark here: it is a character of a word, and the one that is first in one line is
first in the other. -/
theorem Unmarked.exists_cutAt (hline : Unmarked line) (h : pieces line' = pieces line)
    (hcut : Text.cutAt '?' line = (before, some after)) :
    ∃ before' after', Text.cutAt '?' line' = (before', some after')
      ∧ ∀ d, isMark d = false → Sugar.isNested (before ++ d :: after) = true
        ∧ pieces (before' ++ d :: after') = pieces (before ++ d :: after) := by
  have hline' := hline.of_pieces_eq h
  rw [pieces_eq_wordRuns hline, pieces_eq_wordRuns hline'] at h
  obtain ⟨before', after', hcut', hruns⟩ := exists_cutAt_of_wordRuns_eq h hcut
  rw [eq_of_cutAt hcut] at hline
  rw [eq_of_cutAt hcut'] at hline'
  refine ⟨before', after', hcut', fun d hd => ⟨(hline.replace hd).isNested, ?_⟩⟩
  rw [pieces_eq_wordRuns (hline.replace hd), pieces_eq_wordRuns (hline'.replace hd), hruns]

/-- Lines of the same pieces have question marks together or not at all. -/
theorem Unmarked.cutAt_eq_none {first : List Char} (hline : Unmarked line)
    (h : pieces line' = pieces line) (hcut : Text.cutAt '?' line = (first, none)) :
    Text.cutAt '?' line' = (line', none) := by
  cases hcut' : Text.cutAt '?' line' with
  | mk before' rest' =>
    cases rest' with
    | none => rw [eq_of_cutAt_none hcut']
    | some after' =>
      obtain ⟨_, _, hsome, _⟩ := (hline.of_pieces_eq h).exists_cutAt h.symm hcut'
      rw [hcut] at hsome
      cases hsome

/-- Lines of the same pieces have variants of the same words. The induction is along the rewriting
of the first line; whatever is put in for a sign there is put in for the same sign of the other
line. -/
theorem map_wordRuns_variants (hnested : isNested line = true) (h : pieces line' = pieces line) :
    (variants limit line').map (Text.wordRuns []) = (variants limit line).map (Text.wordRuns []) := by
  have hspace : Text.isBlank ' ' = true := by decide
  -- each rewriting of the one line is one of the other, and their results have the same pieces again
  fun_induction variants limit line generalizing line' with
  -- a group, kept or left out
  | case1 line before after hcut group ihPresent =>
    rename_i ihAbsent
    obtain ⟨before', after', hcut', hbefore, hinside, hrest⟩ := exists_group_of_pieces_eq hnested h hcut
    have hfirst := not_mem_cutAt '(' line
    rw [hcut] at hfirst
    rw [eq_of_cutAt hcut] at hnested
    obtain ⟨hpresent, habsent⟩ := isNested_open hfirst hnested
    rw [variants_eq limit line', hcut']
    simp only [List.map_append]
    refine congrArg₂ (· ++ ·) (ihPresent hpresent ?_) (ihAbsent habsent ?_)
    · simp only [group, pieces_append_blank hspace, hbefore, hinside, hrest]
    · simp only [group, pieces_append_blank hspace, hbefore, hrest]
  -- a plus sign
  | case2 line _ hopen before after hcut ih =>
    obtain ⟨before', after', hcut', hbefore, hafter⟩ := exists_cutAt_of_pieces_eq (by decide) h hcut
    have hopen := not_mem_of_cutAt_none hopen
    rw [variants_eq limit line', cutAt_of_pieces_eq (by decide) h hopen, hcut']
    rw [eq_of_cutAt hcut] at hnested hopen
    simp only [List.map_flatMap]
    refine List.flatMap_congr fun n _ => ih n (isNested_replace hopen hnested (not_mem_dictated _)) ?_
    rw [pieces_append_dictated, pieces_append_dictated, hbefore, hafter]
  -- a star
  | case3 line _ hopen _ hplus before after hcut ihNone ih =>
    obtain ⟨before', after', hcut', hbefore, hafter⟩ := exists_cutAt_of_pieces_eq (by decide) h hcut
    have hopen := not_mem_of_cutAt_none hopen
    rw [variants_eq limit line', cutAt_of_pieces_eq (by decide) h hopen,
      cutAt_of_pieces_eq (by decide) h (not_mem_of_cutAt_none hplus), hcut']
    rw [eq_of_cutAt hcut] at hnested hopen
    simp only [List.map_append, List.map_flatMap]
    have hblank := isNested_replace_char hopen hnested (d := ' ') (by decide) (by decide)
    refine congrArg₂ (· ++ ·) (ihNone hblank ?_) ?_
    · rw [pieces_append_blank hspace, pieces_append_blank hspace, hbefore, hafter]
    · refine List.flatMap_congr fun n _ => ih n (isNested_replace hopen hnested (not_mem_dictated _)) ?_
      rw [pieces_append_dictated, pieces_append_dictated, hbefore, hafter]
  -- a question mark
  | case4 line _ hopen _ hplus _ hstar before after hcut ihNone ih =>
    have hline := unmarked_of_not_mem (not_mem_of_cutAt_none hopen) (not_mem_of_cutAt_none hplus)
      (not_mem_of_cutAt_none hstar) hnested
    obtain ⟨before', after', hcut', hreplace⟩ := hline.exists_cutAt h hcut
    obtain ⟨hblank, hblank'⟩ := hreplace ' ' (by decide)
    obtain ⟨hwild, hwild'⟩ := hreplace '#' (by decide)
    rw [(hline.of_pieces_eq h).variants_eq, hcut']
    simp only [List.map_append]
    exact congrArg₂ (· ++ ·) (ihNone hblank hblank') (ih hwild hwild')
  -- no sign at all
  | case5 line _ hopen _ hplus _ hstar _ hmaybe =>
    have hline := unmarked_of_not_mem (not_mem_of_cutAt_none hopen) (not_mem_of_cutAt_none hplus)
      (not_mem_of_cutAt_none hstar) hnested
    have hline' := hline.of_pieces_eq h
    rw [hline'.variants_eq, hline.cutAt_eq_none h hmaybe]
    rw [pieces_eq_wordRuns hline, pieces_eq_wordRuns hline'] at h
    simp only [List.map_singleton, h]

/-- A question mark that is the only sign of a line is left out, or a wildcard takes its place. -/
theorem variants_append_maybe (hbefore : Plain before) (hafter : Plain after) :
    variants limit (before ++ '?' :: after) = [before ++ ' ' :: after, before ++ '#' :: after] := by
  have hplain : ∀ {c : Char}, sign? c = none → Plain (before ++ c :: after) := by
    intro c hc d hd
    rcases List.mem_append.1 hd with hd | hd
    · exact hbefore d hd
    · rcases List.mem_cons.1 hd with rfl | hd
      · exact hc
      · exact hafter d hd
  -- so the search for each of the other signs finds nothing
  have hnot : ∀ {c : Char}, (sign? c).isSome = true → c ≠ '?' → c ∉ before ++ '?' :: after := by
    intro c hc hne hmem
    rcases List.mem_append.1 hmem with hmem | hmem
    · exact hbefore.not_mem hc hmem
    · exact (List.mem_cons.1 hmem).elim hne (hafter.not_mem hc)
  rw [variants_eq, Text.cutAt_of_not_mem (hnot rfl (by decide)),
    Text.cutAt_of_not_mem (hnot rfl (by decide)), Text.cutAt_of_not_mem (hnot rfl (by decide)),
    Text.cutAt_append (hbefore.not_mem rfl)]
  show variants limit (before ++ ' ' :: after) ++ variants limit (before ++ '#' :: after) = _
  rw [variants_eq_singleton (hplain rfl).sugarless, variants_eq_singleton (hplain rfl).sugarless]
  rfl

end Sugar

namespace Grammar

variable {head whence line line' : String}

/-! ## Growing a grammar -/

/-- Of a plain line only the words matter. -/
theorem Growth.addPlain_congr (h : Text.words line' = Text.words line) (head whence : String)
    (s : Growth) : s.addPlain head whence line' = s.addPlain head whence line := by
  simp only [addPlain, readSteps, h]

/-- Only the words of plain lines matter to what they add. -/
theorem Growth.foldl_addPlain_congr {lines lines' : List String}
    (h : lines'.map Text.words = lines.map Text.words) (head whence : String) (s : Growth) :
    lines'.foldl (Growth.addPlain head whence) s = lines.foldl (Growth.addPlain head whence) s := by
  induction lines generalizing lines' s with
  | nil =>
    rw [List.map_nil, List.map_eq_nil_iff] at h
    rw [h]
  | cons line lines ih =>
    cases lines' with
    | nil => cases h
    | cons line' lines' =>
      rw [List.map_cons, List.map_cons, List.cons.injEq] at h
      rw [List.foldl_cons, List.foldl_cons, addPlain_congr h.1, ih h.2]

/-- A sugared line with its signs given blanks on both sides, for as many of them as `p` says, does to
a grammar just what the line itself does, if its parentheses nest and no question mark that is given
blanks stands beside another one or beside a word. -/
theorem expand_spaced (g : Grammar) (head line whence : String)
    (hnested : Sugar.isNested line.toList = true) {p : Char → Bool}
    (hp : ∀ c, p c = true → (Sugar.sign? c).isSome = true)
    (hmaybe : p '?' = true → Sugar.Apart line.toList) :
    g.expand head (String.ofList (Sugar.spaced p line.toList)) whence = g.expand head line whence := by
  have hpieces := Sugar.pieces_spaced hp hmaybe
  have hnested' := Sugar.isNested_of_pieces_eq hpieces hnested
  have hwords : ∀ vs : List (List Char),
      (vs.map String.ofList).map Text.words = (vs.map (Text.wordRuns [])).map (·.map String.ofList) := by
    intro vs
    simp [Text.words, Function.comp_def]
  simp only [expand, String.toList_ofList, hnested, hnested', Bool.not_true, Bool.false_eq_true,
    if_false]
  apply Growth.foldl_addPlain_congr
  rw [hwords, hwords, Sugar.map_wordRuns_variants hnested hpieces]

/-- The star and the question mark only touch each other and a parenthesis. -/
theorem expand_spaced_errand :
    let g : Grammar := { dictation := 5, maxAlerts := 10 }
    let line := "go(home)*?"
    Sugar.isNested line.toList = true ∧ Sugar.Apart line.toList
      ∧ g.expand "errand" "go ( home )  *  ? " "" = g.expand "errand" line "" := by
  intro g line
  have hnested : Sugar.isNested line.toList = true := by decide
  have hapart : Sugar.Apart line.toList := by decide
  have hspaced := expand_spaced g "errand" line "" hnested (p := fun c => (Sugar.sign? c).isSome)
    (fun _ h => h) fun _ => hapart
  have hline : String.ofList (Sugar.spaced (fun c => (Sugar.sign? c).isSome) line.toList)
      = "go ( home )  *  ? " := by decide
  rw [hline] at hspaced
  exact ⟨hnested, hapart, hspaced⟩

/-- With a question mark right behind a word, the wildcard becomes a part of the word, and with a
space before the question mark it is a step of its own. -/
theorem expand_spaced_changes :
    let g : Grammar := { dictation := 5, maxAlerts := 10 }
    let line := "ring?"
    let key := keyOf "call" [⟨"ring", false⟩, ⟨"#", false⟩]
    g.Built ∧ Sugar.isNested line.toList = true
      ∧ String.ofList (Sugar.spaced (fun c => (Sugar.sign? c).isSome) line.toList) = "ring ? "
      ∧ (∃ p ∈ (g.expand "call" "ring ? " "").grammar.productions.toList, p.key = key)
      ∧ ¬ ∃ p ∈ (g.expand "call" line "").grammar.productions.toList, p.key = key := by
  intro g line key
  have hbuilt : g.Built := .empty 5 10
  have hnested : Sugar.isNested line.toList = true := by decide
  refine ⟨hbuilt, hnested, by decide, ?_, ?_⟩
  -- apart from the word, the question mark is a wildcard of its own
  · have hvariants : Sugar.variants g.dictation.toNat "ring ? ".toList
        = ["ring   ".toList, "ring # ".toList] :=
      @Sugar.variants_append_maybe "ring ".toList " ".toList _ (by decide) (by decide)
    have hnested : Sugar.isNested "ring ? ".toList = true := by decide
    obtain ⟨added, hadds⟩ := exists_adds_expand hbuilt.tidy "call" hnested ""
    rw [hvariants] at hadds
    exact hadds.complete "ring # " (by simp) _ (forms_iff.2 ⟨by decide, by decide⟩)
  · have hvariants : Sugar.variants g.dictation.toNat line.toList = ["ring ".toList, "ring#".toList] := by
      have hline : line.toList = "ring".toList ++ '?' :: [] := by decide
      rw [hline, Sugar.variants_append_maybe (by decide) (by decide)]
      decide
    obtain ⟨added, hadds⟩ := exists_adds_expand hbuilt.tidy "call" hnested ""
    rw [hvariants] at hadds
    rintro ⟨p, hp, hkey⟩
    rw [hadds.productions] at hp
    obtain ⟨_, _, plain, hplain, hforms⟩ := hadds.formed p (by simpa [g] using hp)
    -- each of the two lines makes one step only
    have hone : ∀ word : String, Forms "call" (Text.words plain) [⟨word, false⟩] →
        p.steps.length = 1 := fun word hword => by rw [hforms.steps_eq hword]; rfl
    have hlength : p.steps.length = 1 := by
      simp only [List.map_cons, List.map_nil, List.mem_cons, List.not_mem_nil, or_false,
        String.ofList_toList] at hplain
      rcases hplain with rfl | rfl
      · exact hone "ring" (forms_iff.2 ⟨by decide, by decide⟩)
      · exact hone "ring#" (forms_iff.2 ⟨by decide, by decide⟩)
    have hsteps := congrArg (·.steps.length) hkey
    simp [Production.key, key, keyOf, hlength] at hsteps

end Grammar

end Utterance
