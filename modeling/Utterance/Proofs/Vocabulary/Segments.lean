import Mathlib.Logic.Function.Iterate
import Utterance.Vocabulary.Segment

/-!
# Cutting a text

There is only one way to cut a text into gaps without a character of a word and words of nothing else,
if no word but the last and no gap but the first may be empty. The segments of a text are cut in this
way, so a text that is put together from such segments has them for its own.
-/

namespace Utterance.Segment

/-- A gap without characters of words before a word of nothing else, not both empty. -/
structure Clean (s : Segment) : Prop where
  gap : ∀ c ∈ s.gap.toList, isWordPart c = false
  word : ∀ c ∈ s.word.toList, isWordPart c = true
  text : s.gap = "" → s.word ≠ ""

/-- Clean segments of which no word but the last and no gap but the first is empty. -/
def Cut : List Segment → Prop
  | [] => True
  | [s] => s.Clean
  | s :: t :: rest => s.Clean ∧ s.word ≠ "" ∧ t.gap ≠ "" ∧ Cut (t :: rest)

variable {s t : Segment} {segs rest : List Segment} {gap word cs : List Char}

/-- All segments of a cut are clean. -/
theorem Cut.clean (h : Cut segs) : ∀ s ∈ segs, s.Clean := by
  induction segs with
  | nil => exact fun _ hs => nomatch hs
  | cons s rest ih =>
    cases rest with
    | nil => exact List.forall_mem_singleton.2 h
    | cons t rest => exact List.forall_mem_cons.2 ⟨h.1, ih h.2.2.2⟩

/-- What follows the first segment of a cut is a cut. -/
theorem Cut.tail (h : Cut (s :: rest)) : Cut rest := by
  cases rest with
  | nil => trivial
  | cons t rest => exact h.2.2.2

/-- One more segment in front of others, if there is a word in it and a gap after it. -/
theorem Cut.cons (h : Cut rest) (hclean : s.Clean) (hword : rest ≠ [] → s.word ≠ "")
    (hgap : ∀ t ∈ rest.head?, t.gap ≠ "") : Cut (s :: rest) := by
  cases rest with
  | nil => exact hclean
  | cons t rest => exact ⟨hclean, hword (List.cons_ne_nil _ _), hgap t rfl, h⟩

/-! ## Segments are cut -/

/-- What is dropped from the front leaves nothing or a character that is not dropped. -/
theorem dropWhile_cases {p : Char → Bool} (cs : List Char) :
    cs.dropWhile p = [] ∨ ∃ c rest, cs.dropWhile p = c :: rest ∧ p c = false := by
  cases hdrop : cs.dropWhile p with
  | nil => exact .inl rfl
  | cons c rest =>
    have hhead := List.head?_dropWhile_not p cs
    rw [hdrop] at hhead
    exact .inr ⟨c, rest, rfl, by simpa using hhead⟩

/-- A text that starts with a character between words starts with a gap. -/
theorem gap_ne_empty_of_mem_head?_ofChars {d : Char} (hd : isWordPart d = false)
    (ht : t ∈ (ofChars (d :: cs)).head?) : t.gap ≠ "" := by
  rw [ofChars] at ht
  cases ht
  simp [hd]

/-- The segments of a text are cut right: a word goes on as long as it can, and so does a gap. -/
theorem cut_ofChars (cs : List Char) : Cut (ofChars cs) := by
  fun_induction ofChars cs with
  | case1 => trivial
  | case2 c cs gap word ih =>
    have hclean : Clean ⟨String.ofList gap, String.ofList word⟩ := by
      refine ⟨fun d hd => ?_, fun d hd => ?_, fun hgap hword => ?_⟩
      · rw [String.toList_ofList] at hd
        simpa using List.all_eq_true.1 List.all_takeWhile d hd
      · rw [String.toList_ofList] at hd
        exact List.all_eq_true.1 List.all_takeWhile d hd
      -- the first character is in the gap or in the word
      · cases hc : isWordPart c with
        | false => simp [gap, hc] at hgap
        | true => simp [word, hc] at hword
    apply ih.cons hclean
    · intro hrest hword
      rcases dropWhile_cases (p := (!isWordPart ·)) (c :: cs) with hnone | ⟨d, rest, hdrop, hd⟩
      · apply hrest
        rw [afterFirst, hnone, List.dropWhile_nil, ofChars]
      · have hd : isWordPart d = true := by simpa using hd
        simp [word, hdrop, hd] at hword
    · intro t ht
      rcases dropWhile_cases (p := isWordPart) ((c :: cs).dropWhile (!isWordPart ·)) with
        hnone | ⟨d, rest, hdrop, hd⟩
      · rw [afterFirst, hnone, ofChars] at ht
        cases ht
      · rw [afterFirst, hdrop] at ht
        exact gap_ne_empty_of_mem_head?_ofChars hd ht

theorem cut_ofText (text : String) : Cut (ofText text) := cut_ofChars text.toList

/-! ## Nothing else is -/

/-- A gap and a word come first among the segments of a text that starts with them, if the text ends
or goes on with a gap after the word. -/
theorem ofChars_append (hgap : ∀ c ∈ gap, isWordPart c = false)
    (hword : ∀ c ∈ word, isWordPart c = true) (hsome : gap = [] → word ≠ [])
    (hlast : word = [] → cs = []) (hnext : ∀ c ∈ cs.head?, isWordPart c = false) :
    ofChars (gap ++ (word ++ cs)) = ⟨String.ofList gap, String.ofList word⟩ :: ofChars cs := by
  -- the gap ends where the word begins, and the word where the next gap does
  have hgap' : ∀ c ∈ gap, (!isWordPart c) = true := fun c hc => by rw [hgap c hc]; rfl
  have hstop : (word ++ cs).takeWhile (!isWordPart ·) = [] := by
    cases word with
    | nil => rw [hlast rfl]; rfl
    | cons c word => simp [hword c (List.mem_cons_self ..)]
  have hstop' : (word ++ cs).dropWhile (!isWordPart ·) = word ++ cs := by
    cases word with
    | nil => rw [hlast rfl]; rfl
    | cons c word => simp [hword c (List.mem_cons_self ..)]
  have hend : cs.takeWhile isWordPart = [] ∧ cs.dropWhile isWordPart = cs := by
    cases cs with
    | nil => exact ⟨rfl, rfl⟩
    | cons c cs => simp [hnext c rfl]
  obtain ⟨c, rest, hsplit⟩ : ∃ c rest, gap ++ (word ++ cs) = c :: rest := by
    apply List.exists_cons_of_ne_nil
    intro hnil
    obtain ⟨hgap, hrest⟩ := List.append_eq_nil_iff.1 hnil
    exact hsome hgap (List.append_eq_nil_iff.1 hrest).1
  rw [hsplit, ofChars, afterFirst, ← hsplit, List.takeWhile_append_of_pos hgap',
    List.dropWhile_append_of_pos hgap', hstop, hstop', List.takeWhile_append_of_pos hword,
    List.dropWhile_append_of_pos hword, hend.1, hend.2, List.append_nil, List.append_nil]

/-- The characters of joined segments are those of their gaps and words in turn. -/
theorem toList_join (segs : List Segment) :
    (join segs).toList = segs.flatMap fun s => s.gap.toList ++ s.word.toList := by
  rw [join, String.toList_join, List.flatMap_map]
  simp only [text, String.toList_append]

/-- The segments of a list of characters have all of them. -/
theorem flatMap_ofChars (cs : List Char) :
    (ofChars cs).flatMap (fun s => s.gap.toList ++ s.word.toList) = cs := by
  fun_induction ofChars cs with
  | case1 => rfl
  | case2 c cs gap word ih =>
    rw [List.flatMap_cons, ih, String.toList_ofList, String.toList_ofList, List.append_assoc]
    simp only [afterFirst, gap, word]
    rw [List.takeWhile_append_dropWhile, List.takeWhile_append_dropWhile]

theorem join_ofText (text : String) : join (ofText text) = text := by
  rw [← String.toList_inj, toList_join, ofText, flatMap_ofChars]

/-- Segments that are cut right are those of the text that they make up. The induction takes the
segments off one by one; the gap after a word is what ends it. -/
theorem ofText_join (h : Cut segs) : ofText (join segs) = segs := by
  rw [ofText, toList_join]
  induction segs with
  | nil => rw [List.flatMap_nil, ofChars]
  | cons s rest ih =>
    have hclean := h.clean s (List.mem_cons_self ..)
    rw [List.flatMap_cons, List.append_assoc, ofChars_append hclean.gap hclean.word, ih h.tail,
      String.ofList_toList, String.ofList_toList]
    · intro hgap hword
      exact hclean.text (String.toList_eq_nil_iff.1 hgap) (String.toList_eq_nil_iff.1 hword)
    · intro hword
      cases rest with
      | nil => rfl
      | cons t rest => exact absurd (String.toList_eq_nil_iff.1 hword) h.2.1
    -- the word ends where the next gap begins
    · intro c hc
      cases rest with
      | nil => cases hc
      | cons t rest =>
        have hgap := (h.tail.clean t (List.mem_cons_self ..)).gap
        cases htext : t.gap.toList with
        | nil => exact absurd (String.toList_eq_nil_iff.1 htext) h.2.2.1
        | cons d gap =>
          rw [List.flatMap_cons, htext] at hc
          rw [Option.mem_some_iff.1 hc.symm]
          exact hgap d (by rw [htext]; exact List.mem_cons_self ..)

/-! ## The only cut -/

/-- Segments make up a text, gaps and words have the right characters, no gap but the first and no word
but the last is empty, and no segment is empty altogether. -/
structure Canonical (text : String) (segs : List Segment) : Prop where
  join : join segs = text
  gap : ∀ s ∈ segs, ∀ c ∈ s.gap.toList, isWordPart c = false
  word : ∀ s ∈ segs, ∀ c ∈ s.word.toList, isWordPart c = true
  gap_ne : ∀ (i : Nat) (s : Segment), segs[i]? = some s → 0 < i → s.gap ≠ ""
  word_ne : ∀ (i : Nat) (s : Segment), segs[i]? = some s → i + 1 < segs.length → s.word ≠ ""
  text_ne : ∀ s ∈ segs, s.gap ≠ "" ∨ s.word ≠ ""

/-- Which gaps and words of a cut are not empty, by position: every gap but the first and every word
but the last. -/
theorem cut_iff : Cut segs ↔ (∀ s ∈ segs, s.Clean)
    ∧ (∀ (i : Nat) (s : Segment), segs[i]? = some s → 0 < i → s.gap ≠ "")
    ∧ ∀ (i : Nat) (s : Segment), segs[i]? = some s → i + 1 < segs.length → s.word ≠ "" := by
  induction segs with
  | nil => simp [Cut]
  | cons s rest ih =>
    cases rest with
    | nil =>
      have honly : ∀ (i : Nat) (t : Segment), [s][i]? = some t → i = 0 := by
        intro i t ht
        simpa using (List.getElem?_eq_some_iff.1 ht).1
      refine ⟨fun hclean => ⟨List.forall_mem_singleton.2 hclean, ?_, ?_⟩, fun h => h.1 s (by simp)⟩
      · exact fun i t ht hi => absurd (honly i t ht) (Nat.ne_of_gt hi)
      · exact fun i t _ hi => absurd hi (by simp)
    | cons t rest =>
      rw [Cut, ih]
      constructor
      · rintro ⟨hclean, hword, hgap, hcleans, hgaps, hwords⟩
        refine ⟨List.forall_mem_cons.2 ⟨hclean, hcleans⟩, fun i u hu hi => ?_, fun i u hu hi => ?_⟩
        -- the second gap is the first one of the rest
        · obtain ⟨i, rfl⟩ := Nat.exists_eq_succ_of_ne_zero (Nat.ne_of_gt hi)
          cases i with
          | zero =>
            cases hu
            exact hgap
          | succ i => exact hgaps (i + 1) u hu (Nat.succ_pos i)
        · cases i with
          | zero =>
            cases hu
            exact hword
          | succ i => exact hwords i u hu (Nat.lt_of_succ_lt_succ hi)
      · rintro ⟨hcleans, hgaps, hwords⟩
        obtain ⟨hclean, hrest⟩ := List.forall_mem_cons.1 hcleans
        refine ⟨hclean, hwords 0 s rfl (by simp), hgaps 1 t rfl (Nat.succ_pos 0), hrest, ?_, ?_⟩
        · exact fun i u hu _ => hgaps (i + 1) u hu (Nat.succ_pos i)
        · exact fun i u hu hi => hwords (i + 1) u hu (Nat.succ_lt_succ hi)

/-- The segments of a text are the only ones that cut it: a cut is told by the text that it makes
up. -/
theorem canonical_iff {text : String} : Canonical text segs ↔ segs = ofText text := by
  constructor
  · intro h
    have hclean : ∀ s ∈ segs, s.Clean := fun s hs =>
      ⟨h.gap s hs, h.word s hs, fun hgap => (h.text_ne s hs).resolve_left (not_not_intro hgap)⟩
    rw [← h.join, ofText_join (cut_iff.2 ⟨hclean, h.gap_ne, h.word_ne⟩)]
  · rintro rfl
    obtain ⟨hclean, hgaps, hwords⟩ := cut_iff.1 (cut_ofText text)
    refine ⟨join_ofText text, fun s hs => (hclean s hs).gap, fun s hs => (hclean s hs).word, hgaps,
      hwords, fun s hs => ?_⟩
    by_cases hgap : s.gap = ""
    · exact .inr ((hclean s hs).text hgap)
    · exact .inl hgap

/-! ## Pass by pass -/

/-- Only the empty text has no segments. -/
theorem ofChars_eq_nil_iff : ofChars cs = [] ↔ cs = [] := by
  cases cs with
  | nil => simp [ofChars]
  | cons c cs => simp [ofChars]

/-- What is left after some passes has the segments that have not been cut off. -/
theorem ofChars_afterFirst_iterate (cs : List Char) (n : Nat) :
    ofChars (afterFirst^[n] cs) = (ofChars cs).drop n := by
  induction n generalizing cs with
  | zero => rfl
  | succ n ih =>
    rw [Function.iterate_succ_apply, ih]
    cases cs with
    | nil => simp [ofChars, afterFirst]
    | cons c cs => rw [ofChars.eq_2, List.drop_succ_cons]

/-- After as many passes as there are segments nothing is left, and not before. -/
theorem afterFirst_iterate_eq_nil_iff (cs : List Char) (n : Nat) :
    afterFirst^[n] cs = [] ↔ (ofChars cs).length ≤ n := by
  rw [← ofChars_eq_nil_iff, ofChars_afterFirst_iterate, List.drop_eq_nil_iff]

/-- Every pass takes a character at least. -/
theorem length_ofChars_le (cs : List Char) : (ofChars cs).length ≤ cs.length := by
  fun_induction ofChars cs with
  | case1 => exact Nat.le_refl _
  | case2 c cs gap word ih =>
    exact Nat.succ_le_of_lt (Nat.lt_of_le_of_lt ih (length_afterFirst_lt c cs))

/-- The segments of a text are its only canonical ones. They are cut off pass by pass, and that comes
to an end: after one pass for each of them nothing is left, and there are no more than characters. -/
theorem ofText_canonical (text : String) :
    (∀ segs, Canonical text segs ↔ segs = ofText text)
      ∧ (∀ n, ofChars (afterFirst^[n] text.toList) = (ofText text).drop n)
      ∧ (∀ n, afterFirst^[n] text.toList = [] ↔ (ofText text).length ≤ n)
      ∧ (ofText text).length ≤ text.length :=
  ⟨fun _ => canonical_iff, ofChars_afterFirst_iterate text.toList,
    afterFirst_iterate_eq_nil_iff text.toList, length_ofChars_le text.toList⟩

end Utterance.Segment
