import Utterance.Proofs.Grammar.Representation
import Utterance.Proofs.Rule.Line

/-!
# Rules as they are written

The text of an expansion is cut into the texts of its steps again, and each of them is read as its
step. It has no sugar in it, whatever line the steps were read from. So if the text fits into a line of
a grammar file, that line makes the same steps.
-/

namespace Utterance

variable {p : Production} {head : String}

/-! ## Steps -/

namespace Step

/-- A head is written between angle brackets, and a word as it is. -/
theorem toList_text (s : Step) :
    s.text.toList = if s.nonterminal then '<' :: (s.symbol.toList ++ ['>']) else s.symbol.toList := by
  unfold text
  split <;> simp

/-- However a step was read, its text writes it. -/
theorem WrittenAs.text {s : Step} {token : String} (h : s.WrittenAs token) : s.WrittenAs s.text := by
  cases h with
  | word opens closes => exact .word opens closes
  | @head o c name _ _ named =>
    -- whichever brackets the name stood in, it is written in angle brackets
    have htext : Step.text ⟨name, true⟩ = String.ofList ('<' :: (name.toList ++ ['>'])) := by
      rw [← String.toList_inj, toList_text, String.toList_ofList, if_pos rfl]
    rw [htext]
    exact .head rfl rfl named

/-- A step whose symbol is a word is written as a word. -/
theorem isWord_text {s : Step} (h : Text.IsWord s.symbol) : Text.IsWord s.text := by
  rw [Text.IsWord, toList_text]
  split
  · refine ⟨List.cons_ne_nil _ _, fun c hc => ?_⟩
    rw [List.mem_cons, List.mem_append, List.mem_singleton] at hc
    rcases hc with rfl | hc | rfl
    · decide
    · exact h.2 c hc
    · decide
  · exact h

/-- A step whose symbol has no seam for a comment is written without one. -/
theorem seamless_text {s : Step} (h : Line.Seamless s.symbol.toList) :
    Line.Seamless s.text.toList := by
  rw [toList_text]
  split
  · have hopen : Line.Seamless ['<'] := by decide
    have hclose : Line.Seamless ['>'] := by decide
    exact hopen.append (h.append hclose (.inr (by decide))) (.inl (by decide))
  · exact h

/-- A step whose symbol has no signs is written without signs. -/
theorem plain_text {s : Step} (h : Sugar.Plain s.symbol.toList) : Sugar.Plain s.text.toList := by
  rw [toList_text]
  split
  · intro c hc
    rw [List.mem_cons, List.mem_append, List.mem_singleton] at hc
    rcases hc with rfl | hc | rfl
    · rfl
    · exact h c hc
    · rfl
  · exact h

end Step

/-! ## Expansions -/

/-- What holds of words and is kept when a space is put between two texts holds of a line of words.
There has to be a word, since nothing need hold of the empty text. -/
theorem Text.intercalate_induct {P : List Char → Prop}
    (join : ∀ {xs ys : List Char}, P xs → P ys → P (xs ++ ' ' :: ys)) {ws : List String} (hne : ws ≠ [])
    (h : ∀ w ∈ ws, P w.toList) : P (" ".intercalate ws).toList := by
  induction ws with
  | nil => exact absurd rfl hne
  | cons w ws ih =>
    have hw := h w (List.mem_cons_self ..)
    cases ws with
    | nil =>
      rw [String.intercalate_singleton]
      exact hw
    | cons v ws =>
      have hrest := ih (List.cons_ne_nil _ _) fun u hu => h u (List.mem_cons_of_mem _ hu)
      have hcut : (" ".intercalate (w :: v :: ws)).toList
          = w.toList ++ ' ' :: (" ".intercalate (v :: ws)).toList := by
        rw [String.intercalate_cons_cons, String.toList_append, String.toList_append]
        simp
      rw [hcut]
      exact join hw hrest

namespace Production

/-- What holds of the texts of the steps and is kept when a space is put between two texts holds of
the expansion. -/
theorem expansion_induct {P : List Char → Prop}
    (join : ∀ {xs ys : List Char}, P xs → P ys → P (xs ++ ' ' :: ys)) (hne : p.steps ≠ [])
    (h : ∀ step ∈ p.steps, P step.text.toList) : P p.expansion.toList := by
  refine Text.intercalate_induct join (by simpa using hne) fun w hw => ?_
  obtain ⟨step, hstep, rfl⟩ := List.mem_map.1 hw
  exact h step hstep

/-- The expansion of a production that was read makes the production again, for any spelling of the
head. -/
theorem forms_expansion (h : Grammar.Read p.head p.steps)
    (hhead : Text.lower p.head = Text.lower head) :
    Grammar.Forms head (Text.words p.expansion) p.steps := by
  obtain ⟨line, _, hforms⟩ := h
  have hwords : Text.words p.expansion = p.steps.map Step.text := by
    refine Text.words_intercalate fun w hw => ?_
    obtain ⟨step, hstep, rfl⟩ := List.mem_map.1 hw
    exact Step.isWord_text (hforms.isWord step hstep)
  rw [hwords]
  refine ⟨?_, hforms.ne_nil, fun first hfirst hnonterminal => ?_⟩
  · rw [List.forall₂_map_left_iff, List.forall₂_same]
    intro step hstep
    obtain ⟨token, _, hwritten⟩ := hforms.exists_written hstep
    exact hwritten.text
  · rw [← hhead]
    exact hforms.other first hfirst hnonterminal

/-- A production that was read is written without signs. -/
theorem plain_expansion (h : Grammar.Read p.head p.steps) : Sugar.Plain p.expansion.toList := by
  refine expansion_induct (fun hx hy c hc => ?_) h.ne_nil fun step hstep =>
    Step.plain_text (h.plain step hstep)
  rcases List.mem_append.1 hc with hc | hc
  · exact hx c hc
  · rcases List.mem_cons.1 hc with rfl | hc
    · rfl
    · exact hy c hc

/-! ## Lines -/

/-- A production that a grammar file can show. -/
structure Fits (p : Production) : Prop where
  opens : Line.Opens p.head
  seamless : ∀ step ∈ p.steps, Line.Seamless step.symbol.toList
  /-- The expansion is not taken for the head of a section. -/
  rule : Line.startsWith p.expansion "=" = false
  /-- The expansion is not taken for the name of another file. -/
  plain : Line.startsWith p.expansion "#include" = false

/-- The line that shows a production in the section of its head. -/
def line (p : Production) : String := "  " ++ p.expansion

/-- A production that fits is written without a seam for a comment. -/
theorem Fits.seamless_expansion (h : p.Fits) (hne : p.steps ≠ []) :
    Line.Seamless p.expansion.toList := by
  refine expansion_induct (fun {xs ys} hx hy => ?_) hne fun step hstep =>
    Step.seamless_text (h.seamless step hstep)
  have hspace : Line.Seamless [' '] := by decide
  exact hx.append (hspace.append hy (.inl (by decide))) (.inr (by simp))

/-- An expansion is not empty and has no blanks at its ends, so nothing is cut off when it is read. -/
theorem trimmed_expansion (h : Grammar.Read p.head p.steps) :
    p.expansion ≠ "" ∧ Text.trimChars p.expansion.toList = p.expansion.toList := by
  obtain ⟨_, _, hforms⟩ := h
  have hends : p.expansion.toList ≠ [] ∧ (∀ c ∈ p.expansion.toList.head?, Text.isBlank c = false)
      ∧ ∀ c ∈ p.expansion.toList.getLast?, Text.isBlank c = false := by
    refine expansion_induct (P := fun cs => cs ≠ [] ∧ (∀ c ∈ cs.head?, Text.isBlank c = false)
      ∧ ∀ c ∈ cs.getLast?, Text.isBlank c = false) ?_ hforms.ne_nil fun step hstep => ?_
    -- neither part is empty, so the space between them is at neither end
    · rintro xs ys ⟨hxs, hfirst, _⟩ ⟨hys, _, hlast⟩
      refine ⟨by simp, ?_, ?_⟩
      · rwa [List.head?_append_of_ne_nil _ hxs]
      · rwa [List.append_cons, List.getLast?_append_of_ne_nil _ hys]
    · have hword := Step.isWord_text (hforms.isWord step hstep)
      exact ⟨hword.1, fun c hc => hword.2 c (List.mem_of_head? hc),
        fun c hc => hword.2 c (List.mem_of_getLast? hc)⟩
  refine ⟨fun hempty => hends.1 ?_, Text.trimChars_eq_self_iff.2 hends.2⟩
  rw [hempty]
  rfl

/-- Cleaning the line of a production leaves what the production expands to. -/
theorem Fits.clean_line (h : p.Fits) (hread : Grammar.Read p.head p.steps) :
    Line.clean p.line = p.expansion := by
  have hclean := Line.clean_append (fun c (hc : c ∈ [' ', ' ']) => by simpa using hc)
    (h.seamless_expansion hread.ne_nil) (trimmed_expansion hread).2
  have hline : p.line = String.ofList ([' ', ' '] ++ p.expansion.toList) := by
    rw [line, String.ofList_append, String.ofList_toList]
  rw [hline, hclean, String.ofList_toList]

end Production

end Utterance
