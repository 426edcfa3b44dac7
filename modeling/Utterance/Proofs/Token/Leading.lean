import Mathlib.Data.List.DropRight
import Utterance.Proofs.Token.Agreement
import Utterance.Proofs.Token.Conservation

/-!
# White space in front of a text

Spacing is skipped in front of every token, and of what was skipped only the number of its line ends matters:
two of them make a paragraph break, also in front of the first token. So white space that is put in front of a
text changes no token. It can put a break in front of them, though, and a sentence ends at the first break,
even if no token of it has been read yet.
-/

namespace Utterance

namespace Token

variable {gap cs rest : List Char} {c : Char} {skip minus : Bool} {breaks : Nat}

/-! ## The gap in front of a token -/

/-- Number of the line ends in front of the first character that is no spacing. -/
def lineEnds (cs : List Char) : Nat := (cs.takeWhile isSpacing).count '\n'

/-- The characters from the first one on that is no spacing. -/
def trimmed (cs : List Char) : List Char := cs.dropWhile isSpacing

theorem lineEnds_append (h : ∀ c ∈ gap, isSpacing c = true) (cs : List Char) :
    lineEnds (gap ++ cs) = gap.count '\n' + lineEnds cs := by
  rw [lineEnds, List.takeWhile_append_of_pos h, List.count_append, lineEnds]

theorem trimmed_append (h : ∀ c ∈ gap, isSpacing c = true) (cs : List Char) :
    trimmed (gap ++ cs) = trimmed cs := by
  rw [trimmed, List.dropWhile_append_of_pos h, trimmed]

/-- Line ends in front, one character at a time. -/
theorem lineEnds_cons_of_isSpacing (h : isSpacing c = true) (cs : List Char) :
    lineEnds (c :: cs) = (if c = '\n' then 1 else 0) + lineEnds cs := by
  rw [lineEnds, List.takeWhile_cons_of_pos h, List.count_cons, lineEnds, Nat.add_comm]
  simp

theorem lineEnds_cons_of_not (h : isSpacing c = false) (cs : List Char) : lineEnds (c :: cs) = 0 := by
  simp [lineEnds, h]

theorem trimmed_cons_of_not (h : isSpacing c = false) (cs : List Char) : trimmed (c :: cs) = c :: cs := by
  simp [trimmed, h]

theorem trimmed_trimmed (cs : List Char) : trimmed (trimmed cs) = trimmed cs :=
  List.dropWhile_idempotent _ cs

/-- What was trimmed has no line ends in front. -/
theorem lineEnds_trimmed (cs : List Char) : lineEnds (trimmed cs) = 0 := by
  induction cs with
  | nil => rfl
  | cons c cs ih =>
    cases hc : isSpacing c with
    | true => rwa [trimmed, List.dropWhile_cons_of_pos hc]
    | false => rw [trimmed_cons_of_not hc, lineEnds_cons_of_not hc]

/-- It begins with something else than spacing, if anything is left. -/
theorem isSpacing_of_trimmed_eq_cons (h : trimmed cs = c :: rest) : isSpacing c = false := by
  have hhead := List.head?_dropWhile_not isSpacing cs
  rw [← trimmed, h] at hhead
  exact hhead

theorem trimmed_eq_nil_iff : trimmed cs = [] ↔ ∀ c ∈ cs, isSpacing c = true :=
  List.dropWhile_eq_nil_iff

/-- What skipping finds is told by the line ends that it passes. Two of them make a blank line,
together with those that were passed before. -/
theorem skipSpacing_eq (breaks : Nat) (cs : List Char) :
    skipSpacing breaks cs
      = (if trimmed cs = [] then .atEnd else if 2 ≤ breaks + lineEnds cs then .blankLine else .inLine,
        trimmed cs) := by
  induction cs generalizing breaks with
  | nil => rw [skipSpacing_of_none rfl]; rfl
  | cons c cs ih =>
    rw [skipSpacing_of_some rfl]
    cases hc : isSpacing c with
    | true =>
      have hcount : (if c = '\n' then breaks + 1 else breaks) + lineEnds cs
          = breaks + lineEnds (c :: cs) := by
        rw [lineEnds_cons_of_isSpacing hc]
        split <;> omega
      have htrimmed : trimmed (c :: cs) = trimmed cs := List.dropWhile_cons_of_pos hc
      rw [if_pos rfl, ih, hcount, htrimmed]
    | false =>
      simp only [trimmed_cons_of_not hc, lineEnds_cons_of_not hc, Nat.add_zero, Bool.false_eq_true,
        if_false, List.cons_ne_nil]
      rfl

/-! ## The next token -/

/-- After fewer than two line ends the next token is that of the text without the spacing in front. -/
theorem next?_trimmed (minus : Bool) (h : lineEnds cs < 2) :
    next? minus (trimmed cs) = next? minus cs := by
  have hfew : ¬2 ≤ 0 + lineEnds cs := by omega
  unfold next?
  rw [skipSpacing_eq, skipSpacing_eq, trimmed_trimmed, lineEnds_trimmed, if_neg hfew]
  rfl

/-- After two line ends or more the next token is a paragraph break, if there is any. -/
theorem next?_of_blankLine (minus : Bool) (hsome : trimmed cs ≠ []) (h : 2 ≤ lineEnds cs) :
    next? minus cs = (some paragraphBreak, minus, trimmed cs) := by
  unfold next?
  rw [skipSpacing_eq, if_neg hsome, if_pos (by omega)]

/-- Then there is no token, whatever line ends there are: a break is told only in front of
something. -/
theorem next?_of_trimmed_eq_nil (minus : Bool) (h : trimmed cs = []) :
    next? minus cs = (none, minus, []) := by
  unfold next?
  rw [skipSpacing_eq, if_pos h, h]

/-- Otherwise it is the minus sign that was cut off, or what is read from the first character on. -/
theorem next?_of_trimmed_eq_cons (minus : Bool) (hcons : trimmed cs = c :: rest) (h : lineEnds cs < 2) :
    next? minus cs = if minus && c == '-' then (some ⟨String.singleton c, .word⟩, false, rest)
      else (some (readRun [] (c :: rest)).1, (readRun [] (c :: rest)).2) := by
  have hfew : ¬2 ≤ 0 + lineEnds cs := by omega
  have hsome : trimmed cs ≠ [] := by rw [hcons]; exact List.cons_ne_nil c rest
  unfold next?
  rw [skipSpacing_eq, if_neg hsome, if_neg hfew, hcons]
  rfl

/-- Where something is left and no blank line stands before it, the next token is no break. -/
theorem exists_next?_of_trimmed (minus : Bool) (hsome : trimmed cs ≠ []) (h : lineEnds cs < 2) :
    ∃ t, (next? minus cs).1 = some t ∧ t.kind ≠ .paragraph := by
  obtain ⟨c, rest, hcons⟩ := List.exists_cons_of_ne_nil hsome
  rw [next?_of_trimmed_eq_cons minus hcons h]
  split
  · exact ⟨_, rfl, fun hkind => nomatch hkind⟩
  · exact ⟨_, rfl, kind_readRun _ _⟩

/-! ## Sentences and texts -/

/-- A sentence is the same without the spacing in front of it, as long as there is no blank line. -/
theorem readSentence_trimmed (skip minus : Bool) (h : lineEnds cs < 2) :
    readSentence skip minus (trimmed cs) = readSentence skip minus cs := by
  rw [readSentence_eq, nextKept?_eq, next?_trimmed minus h, ← nextKept?_eq, ← readSentence_eq]

/-- So are all tokens. -/
theorem readAll_trimmed (skip minus : Bool) (h : lineEnds cs < 2) :
    readAll skip minus (trimmed cs) = readAll skip minus cs := by
  rw [readAll_eq, nextKept?_eq, next?_trimmed minus h, ← nextKept?_eq, ← readAll_eq]

/-- A blank line in front of something is told as a break, before anything else. -/
theorem nextKept?_of_blankLine (skip minus : Bool) (hsome : trimmed cs ≠ []) (h : 2 ≤ lineEnds cs) :
    nextKept? skip minus cs = (some paragraphBreak, minus, trimmed cs) := by
  have hkept : (skip && paragraphBreak.isPunctuation) = false := Bool.and_false skip
  rw [nextKept?_eq, next?_of_blankLine minus hsome h]
  simp only [hkept, Bool.false_eq_true, if_false]

/-- Where there is nothing but spacing, a sentence has no tokens, however many line ends there are.
-/
theorem readSentence_of_trimmed_eq_nil (skip minus : Bool) (h : trimmed cs = []) :
    (readSentence skip minus cs).1 = [] := by
  rw [readSentence_eq, nextKept?_eq, next?_of_trimmed_eq_nil minus h]

/-- A sentence that opens with a blank line is over before its first token. -/
theorem readSentence_of_blankLine (skip minus : Bool) (h : 2 ≤ lineEnds cs) :
    (readSentence skip minus cs).1 = [] := by
  by_cases hsome : trimmed cs = []
  · exact readSentence_of_trimmed_eq_nil skip minus hsome
  · rw [readSentence_eq, nextKept?_of_blankLine skip minus hsome h]
    rfl

theorem readAll_of_trimmed_eq_nil (skip minus : Bool) (h : trimmed cs = []) :
    (readAll skip minus cs).1 = [] := by
  rw [readAll_eq, nextKept?_eq, next?_of_trimmed_eq_nil minus h]

/-- After a blank line a break comes first, and the tokens of the text without the spacing follow.
-/
theorem readAll_of_blankLine (skip minus : Bool) (hsome : trimmed cs ≠ []) (h : 2 ≤ lineEnds cs) :
    (readAll skip minus cs).1 = paragraphBreak :: (readAll skip minus (trimmed cs)).1 := by
  rw [readAll_eq, nextKept?_of_blankLine skip minus hsome h]

/-- A sentence has no tokens only if there are none or a blank line comes first. -/
theorem readSentence_false_eq_nil_iff (minus : Bool) (cs : List Char) :
    (readSentence false minus cs).1 = [] ↔ (∀ c ∈ cs, isSpacing c = true) ∨ 2 ≤ lineEnds cs := by
  rw [← trimmed_eq_nil_iff]
  constructor
  · intro hnil
    rw [or_iff_not_imp_left]
    intro hsome
    apply Nat.le_of_not_lt
    intro hfew
    -- there is a token in front, and it is no break, so the sentence has it
    obtain ⟨t, ht, hkind⟩ := exists_next?_of_trimmed minus hsome hfew
    have hnext : next? minus cs = (some t, (next? minus cs).2) := by rw [← ht]
    rw [readSentence_eq, nextKept?_false, hnext] at hnil
    simp [hkind] at hnil
  · rintro (hnone | hblank)
    · exact readSentence_of_trimmed_eq_nil false minus hnone
    · exact readSentence_of_blankLine false minus hblank

end Token

/-- White space in front of a text leaves its sentence as it is, unless the text opens with a blank line then;
in that case the sentence is empty. All tokens up to the end are those of the text without the spacing in
front, after a paragraph break if there are two line ends in that spacing. A sentence with its punctuation is
empty only if there is nothing but spacing in the text or it opens with a blank line. -/
theorem tokenize_append_spacing {gap : String} (hgap : ∀ c ∈ gap.toList, Token.isSpacing c = true)
    (text : String) :
    (∀ skip, tokenize skip (gap ++ text)
        = if Token.lineEnds (gap ++ text).toList < 2 then tokenize skip text else [])
      ∧ (∀ skip, tokensOf skip (gap ++ text)
        = (if 2 ≤ Token.lineEnds (gap ++ text).toList ∧ Token.trimmed text.toList ≠ [] then
            [Token.paragraphBreak] else [])
          ++ tokensOf skip (String.ofList (Token.trimmed text.toList)))
      ∧ (tokenize false text = []
        ↔ (∀ c ∈ text.toList, Token.isSpacing c = true) ∨ 2 ≤ Token.lineEnds text.toList) := by
  have htrimmed := Token.trimmed_append hgap text.toList
  have hends := Token.lineEnds_append hgap text.toList
  rw [← String.toList_append] at htrimmed hends
  refine ⟨fun skip => ?_, fun skip => ?_, ?_⟩
  · unfold tokenize
    split
    · rename_i hfew
      -- both texts are the same once they are trimmed
      rw [← Token.readSentence_trimmed skip false hfew, htrimmed,
        Token.readSentence_trimmed skip false (by omega)]
    · rename_i hblank
      rw [Token.readSentence_of_blankLine skip false (by omega)]
      rfl
  · unfold tokensOf
    rw [String.toList_ofList]
    by_cases hsome : Token.trimmed text.toList = []
    · -- no token follows, so no break stands before one
      rw [Token.readAll_of_trimmed_eq_nil skip false (htrimmed.trans hsome), hsome, if_neg (by simp),
        Token.readAll_of_trimmed_eq_nil skip false rfl]
      rfl
    · split
      · rename_i hblank
        rw [Token.readAll_of_blankLine skip false (by rwa [htrimmed]) hblank.1, htrimmed]
        rfl
      · rename_i hfew
        rw [not_and_or, not_not] at hfew
        rw [← Token.readAll_trimmed skip false (Nat.lt_of_not_le (hfew.resolve_right hsome)), htrimmed]
        rfl
  · rw [tokenize, List.map_eq_nil_iff, Token.readSentence_false_eq_nil_iff]

/-- A single line end and other spacing in front of an utterance of two lines. -/
theorem tokenize_append_spacing_grab :
    (∀ c ∈ " \t\r\n".toList, Token.isSpacing c = true)
      ∧ (∀ skip, tokenize skip (" \t\r\n" ++ "grab\nit.") = tokenize skip "grab\nit.")
      ∧ tokenize false "grab\nit." ≠ [] := by
  have hgap : ∀ c ∈ " \t\r\n".toList, Token.isSpacing c = true := List.all_eq_true.1 (by decide)
  obtain ⟨hsentence, -, hempty⟩ := tokenize_append_spacing hgap "grab\nit."
  refine ⟨hgap, fun skip => ?_, fun hnone => ?_⟩
  · rw [hsentence, if_pos (by decide)]
  · rcases hempty.1 hnone with hspacing | hblank
    · exact absurd (hspacing 'g' (by decide)) (by decide)
    · exact absurd hblank (by decide)

/-- A blank line in front of a word takes the word out of the sentence: the paragraph is over before
it has begun. -/
theorem tokenize_blank_line :
    tokenize false "hello" = ["hello"] ∧ tokenize false ("\n\n" ++ "hello") = []
      ∧ tokenize true ("\n\n" ++ "hello") = [] := by
  decide +kernel

end Utterance
