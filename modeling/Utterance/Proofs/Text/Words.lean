import Mathlib.Data.List.Induction
import Utterance.Proofs.Text.Blank
import Utterance.Proofs.Text.Casing

/-!
# The words of a text

A text is cut into words at its blanks: a word is made of characters of the text, none of them a blank,
and a blank cuts the words of what stands before it from those of what stands after it. So words with a
space between any two are cut apart again.
-/

namespace Utterance.Text

variable {run before after cs w : List Char} {c : Char}

/-! ## Runs between blanks -/

/-- Characters that are not blank are taken into the word that is being read. -/
theorem wordRuns_append (hw : ∀ c ∈ w, isBlank c = false) (run cs : List Char) :
    wordRuns run (w ++ cs) = wordRuns (w.reverse ++ run) cs := by
  induction w generalizing run with
  | nil => rfl
  | cons c w ih =>
    rw [List.cons_append, wordRuns, hw c (List.mem_cons_self ..), if_neg (by decide),
      ih fun d hd => hw d (List.mem_cons_of_mem _ hd)]
    simp

/-- A list without blanks is one word. -/
theorem wordRuns_of_forall (h : ∀ c ∈ cs, isBlank c = false) (hne : cs ≠ []) :
    wordRuns [] cs = [cs] := by
  have hrun := wordRuns_append h [] []
  rw [List.append_nil] at hrun
  rw [hrun, wordRuns, List.append_nil, List.reverse_reverse, if_neg (by simpa using hne)]

/-- A blank cuts the words of a text in two. -/
theorem wordRuns_append_blank (hc : isBlank c = true) (run before after : List Char) :
    wordRuns run (before ++ c :: after) = wordRuns run before ++ wordRuns [] after := by
  induction before generalizing run with
  | nil =>
    rw [List.nil_append, wordRuns, wordRuns, if_pos hc]
    split <;> rfl
  | cons d before ih =>
    rw [List.cons_append, wordRuns, wordRuns]
    simp only [ih]
    split
    · split <;> rfl
    · rfl

/-- A word has characters, and no blank among them. -/
theorem mem_wordRuns (hrun : ∀ c ∈ run, isBlank c = false) (h : w ∈ wordRuns run cs) :
    w ≠ [] ∧ ∀ c ∈ w, isBlank c = false := by
  have hword : ∀ {run : List Char}, ¬run.isEmpty = true → (∀ c ∈ run, isBlank c = false) →
      run.reverse ≠ [] ∧ ∀ c ∈ run.reverse, isBlank c = false := by
    intro run hne hrun
    exact ⟨by simpa using hne, fun c hc => hrun c (List.mem_reverse.1 hc)⟩
  fun_induction wordRuns run cs with
  | case1 => cases h
  -- the run at the end
  | case2 run hne =>
    rw [List.mem_singleton.1 h]
    exact hword hne hrun
  -- a blank behind another
  | case3 run c cs _ _ ih => exact ih (by simp) h
  -- a blank behind a run
  | case4 run c cs _ hne ih =>
    rcases List.mem_cons.1 h with rfl | h
    · exact hword hne hrun
    · exact ih (by simp) h
  -- a character of the run
  | case5 run c cs hc ih => exact ih (List.forall_mem_cons.2 ⟨by simpa using hc, hrun⟩) h

/-- The words of a text are made of its characters, and of those of the run that it is cut with. -/
theorem mem_of_mem_wordRuns (h : w ∈ wordRuns run cs) (hc : c ∈ w) : c ∈ run ∨ c ∈ cs := by
  -- along the cut: a character is in the run until a blank ends it
  fun_induction wordRuns run cs with
  | case1 => cases h
  | case2 run _ =>
    rw [List.mem_singleton.1 h] at hc
    exact .inl (List.mem_reverse.1 hc)
  | case3 run d cs _ _ ih => exact .inr (List.mem_cons_of_mem _ ((ih h).resolve_left List.not_mem_nil))
  | case4 run d cs _ _ ih =>
    rcases List.mem_cons.1 h with rfl | h
    · exact .inl (List.mem_reverse.1 hc)
    · exact .inr (List.mem_cons_of_mem _ ((ih h).resolve_left List.not_mem_nil))
  | case5 run d cs _ ih =>
    rcases ih h with hrun | hcs
    · rcases List.mem_cons.1 hrun with rfl | hrun
      · exact .inr (List.mem_cons_self ..)
      · exact .inl hrun
    · exact .inr (List.mem_cons_of_mem _ hcs)

/-- What a text starts with up to the first blank is cut off from the rest, whatever stands before. -/
theorem exists_wordRuns_append_right (after : List Char) :
    ∃ word rest, after = word ++ rest ∧ (∀ c ∈ word, isBlank c = false)
      ∧ ∀ cs, wordRuns [] (cs ++ (word ++ rest)) = wordRuns [] (cs ++ word) ++ wordRuns [] rest := by
  induction after with
  | nil => exact ⟨[], [], rfl, by simp, fun cs => by simp [wordRuns]⟩
  | cons c after ih =>
    cases hc : isBlank c with
    | true =>
      refine ⟨[], c :: after, rfl, by simp, fun cs => ?_⟩
      have hcut : wordRuns [] (c :: after) = wordRuns [] after :=
        wordRuns_append_blank hc [] [] after
      rw [List.nil_append, List.append_nil, wordRuns_append_blank hc, hcut]
    | false =>
      obtain ⟨word, rest, rfl, hword, hcut⟩ := ih
      -- the character is moved over to what stands before, so the same cut serves
      refine ⟨c :: word, rest, rfl, List.forall_mem_cons.2 ⟨hc, hword⟩, fun cs => ?_⟩
      simpa using hcut (cs ++ [c])

/-- So is what a text ends with from the last blank on, whatever stands after it. The induction
takes the last character off: if it is blank nothing is open, and otherwise it belongs to the open
word. -/
theorem exists_wordRuns_append_left (before : List Char) :
    ∃ rest word, before = rest ++ word ∧ (∀ c ∈ word, isBlank c = false)
      ∧ ∀ cs, wordRuns [] (rest ++ (word ++ cs)) = wordRuns [] rest ++ wordRuns [] (word ++ cs) := by
  induction before using List.reverseRecOn with
  | nil => exact ⟨[], [], rfl, by simp, fun cs => by simp [wordRuns]⟩
  | append_singleton before c ih =>
    cases hc : isBlank c with
    | true =>
      refine ⟨before ++ [c], [], by simp, by simp, fun cs => ?_⟩
      have hcut : wordRuns [] (before ++ [c]) = wordRuns [] before := by
        rw [wordRuns_append_blank hc, wordRuns]
        simp
      rw [hcut, List.nil_append, List.append_assoc, List.singleton_append, wordRuns_append_blank hc]
    | false =>
      obtain ⟨rest, word, rfl, hword, hcut⟩ := ih
      refine ⟨rest, word ++ [c], by simp, fun d hd => ?_, fun cs => ?_⟩
      · rcases List.mem_append.1 hd with hd | hd
        · exact hword d hd
        · rw [List.mem_singleton.1 hd, hc]
      · simpa using hcut (c :: cs)

/-! ## Words of a line -/

/-- A text that can stand as one word of a line. -/
def IsWord (s : String) : Prop := s.toList ≠ [] ∧ ∀ c ∈ s.toList, isBlank c = false

theorem isWord_of_all {s : String} (hne : s.toList ≠ [])
    (h : s.toList.all (!isBlank ·) = true) : IsWord s :=
  ⟨hne, fun c hc => by simpa using List.all_eq_true.1 h c hc⟩

theorem isWord_of_mem_words {s line : String} (h : s ∈ words line) : IsWord s := by
  obtain ⟨w, hw, rfl⟩ := List.mem_map.1 h
  simpa [IsWord] using mem_wordRuns (by simp) hw

/-- The words of a line are made of its characters. -/
theorem mem_of_mem_words {word line : String} (hword : word ∈ words line) (hc : c ∈ word.toList) :
    c ∈ line.toList := by
  obtain ⟨w, hw, rfl⟩ := List.mem_map.1 hword
  rw [String.toList_ofList] at hc
  exact (mem_of_mem_wordRuns hw hc).resolve_left List.not_mem_nil

/-- Words with a space between any two are cut apart again. -/
theorem wordRuns_intercalate {ws : List (List Char)}
    (h : ∀ w ∈ ws, w ≠ [] ∧ ∀ c ∈ w, isBlank c = false) : wordRuns [] ([' '].intercalate ws) = ws := by
  induction ws with
  | nil => rfl
  | cons w ws ih =>
    obtain ⟨⟨hne, hw⟩, hws⟩ := List.forall_mem_cons.1 h
    cases ws with
    | nil => rw [List.intercalate_singleton, wordRuns_of_forall hw hne]
    | cons v ws =>
      rw [List.intercalate_cons_cons, List.append_assoc, List.singleton_append,
        wordRuns_append_blank (by decide), wordRuns_of_forall hw hne, ih hws, List.singleton_append]

/-- Words with single spaces between them are cut apart again. -/
theorem words_intercalate {ws : List String} (h : ∀ w ∈ ws, IsWord w) :
    words (" ".intercalate ws) = ws := by
  have hruns : wordRuns [] ([' '].intercalate (ws.map String.toList)) = ws.map String.toList :=
    wordRuns_intercalate (List.forall_mem_map.2 h)
  have htext : (" ".intercalate ws).toList = [' '].intercalate (ws.map String.toList) :=
    String.toList_intercalate
  rw [words, htext, hruns]
  simp [Function.comp_def]

/-- A word is its own only word. -/
theorem words_eq_singleton {w : String} (h : IsWord w) : words w = [w] := by
  have hwords : words (" ".intercalate [w]) = [w] :=
    words_intercalate fun v hv => by rw [List.mem_singleton.1 hv]; exact h
  rwa [String.intercalate_singleton] at hwords

theorem IsWord.lower_ne_empty {s : String} (h : IsWord s) : lower s ≠ "" :=
  fun hempty => h.1 (String.toList_eq_nil_iff.2 (lower_eq_empty_iff.1 hempty))

end Utterance.Text
