import Utterance.Proofs.Text.LowerCase
import Utterance.Proofs.Token.Leading
import Utterance.Proofs.Token.Rejoining

/-!
# Tokens made of marks only

A punctuation mark is a token by itself, and no word. Two or three points stay together as an ellipsis, which
is a delimiter if the text or the line ends after it or a gap follows. But a mark that stands directly after
the points ends the token as it ends any word, and then the ellipsis is a word. There is no other way for a
word to have no character but marks.
-/

namespace Utterance

namespace Token

variable {run cs rest : List Char} {c d : Char} {ahead : Option Char} {minus : Bool} {t u : Token}

/-! ## Texts of marks -/

/-- A text without a character that is no mark. -/
def AllMarks (text : String) : Prop := text.toList.all isMark = true

/-- A text of two or three points. -/
def IsEllipsis (text : String) : Prop := text = ".." ∨ text = "..."

instance (text : String) : Decidable (AllMarks text) := inferInstanceAs (Decidable (_ = true))

instance (text : String) : Decidable (IsEllipsis text) := inferInstanceAs (Decidable (_ ∨ _))

theorem allMarks_ofList : AllMarks (String.ofList cs) ↔ ∀ c ∈ cs, isMark c = true := by
  rw [AllMarks, String.toList_ofList, List.all_eq_true]

/-- An ellipsis is made of marks. -/
theorem IsEllipsis.allMarks {text : String} (h : IsEllipsis text) : AllMarks text := by
  rcases h with rfl | rfl
  · decide
  · decide

theorem forall_marks {p : Char → Bool} (h : marks.all p = true) (hc : isMark c = true) : p c = true := by
  rw [isMark, List.contains_eq_mem, decide_eq_true_iff] at hc
  exact List.all_eq_true.1 h c hc

/-- A mark has no case. -/
theorem lower_of_marks (h : ∀ c ∈ cs, isMark c = true) :
    Text.lower (String.ofList cs) = String.ofList cs := by
  have hsmall : ∀ c ∈ cs, (decide (c.toNat < 128) && c.toLower == c) = true :=
    fun c hc => forall_marks (p := fun c => decide (c.toNat < 128) && c.toLower == c) (by decide) (h c hc)
  simp only [Bool.and_eq_true, decide_eq_true_eq, beq_iff_eq] at hsmall
  rw [Text.lower, String.toList_ofList, Text.lowerAfter_of_ascii [] fun c hc => (hsmall c hc).1]
  congr 1
  conv => rhs; rw [← List.map_id cs]
  exact List.map_congr_left fun c hc => (hsmall c hc).2

/-- The only abbreviations without letters are the two ellipses. -/
theorem eq_points_of_abbreviation (h : ∀ c ∈ cs, isMark c = true)
    (habbreviation : Text.lower (String.ofList cs) ∈ abbreviations) : IsEllipsis (String.ofList cs) := by
  rw [lower_of_marks h] at habbreviation
  have hall : ∀ text ∈ abbreviations, AllMarks text → IsEllipsis text := by decide
  exact hall _ habbreviation (allMarks_ofList.2 h)

/-! ## Marks that belong to a token -/

/-- A mark belongs to a token of marks only if a second point follows the first, if a digit follows it, or if
the token is an ellipsis with it. -/
theorem joins_marks (hjoins : joins run c ahead = true) (hrun : ∀ d ∈ run, isMark d = true)
    (hc : isMark c = true) :
    (run = [] ∧ c = '.' ∧ ahead = some '.') ∨ ahead.any Text.isDigit = true
      ∨ IsEllipsis (String.ofList (c :: run).reverse) := by
  have hmarks : ∀ d ∈ (c :: run).reverse, isMark d = true := by
    intro d hd
    rcases List.mem_cons.1 (List.mem_reverse.1 hd) with rfl | hd
    · exact hc
    · exact hrun d hd
  unfold joins at hjoins
  split at hjoins
  · cases hjoins
  · rw [Bool.or_eq_true, Bool.not_eq_true'] at hjoins
    rcases hjoins with hstays | hpoints
    · unfold endsWord at hstays
      rw [hc] at hstays
      simp only [Bool.not_true, Bool.false_eq_true, if_false] at hstays
      split at hstays
      -- a sign inside a number has a digit behind it
      · rename_i hnumber
        exact .inr (.inl (Bool.and_eq_true_iff.1 hnumber).2)
      · split at hstays
        · -- an initial is a letter, and no mark is one
          rename_i hinitial
          rw [Bool.and_eq_true, Option.any_eq_true] at hinitial
          obtain ⟨-, d, hd, hletter⟩ := hinitial
          have hplain := forall_marks (p := fun d => !Text.isAlpha d) (by decide +kernel)
            (hrun d (List.mem_of_head? hd))
          rw [hletter] at hplain
          cases hplain
        · split at hstays
          · rename_i habbreviation
            rw [Bool.and_eq_true, List.contains_eq_mem, decide_eq_true_iff] at habbreviation
            exact .inr (.inr (eq_points_of_abbreviation hmarks habbreviation.2))
          · cases hstays
    · simp only [Bool.and_eq_true, List.isEmpty_iff, beq_iff_eq] at hpoints
      exact .inl ⟨hpoints.1.1, hpoints.1.2, hpoints.2⟩

/-- What can be read on with when only marks were read: a first point before a second one, an ellipsis, or
marks before a digit. -/
def MarksRead (run cs : List Char) : Prop :=
  (run = ['.'] ∧ cs.head? = some '.') ∨ cs.head?.any Text.isDigit = true
    ∨ IsEllipsis (String.ofList run.reverse)

/-- A token of marks that was read on with is an ellipsis. Marks are joined to what was read only by
two rules: a point behind points, and what belongs to a number; and a number is not made of marks. -/
theorem isEllipsis_joined (hread : MarksRead run cs)
    (hmarks : ∀ d ∈ run.reverse ++ joined run cs, isMark d = true) :
    IsEllipsis (String.ofList (run.reverse ++ joined run cs)) := by
  -- along the characters that are left: whatever the token takes up, there is a reason to read on
  induction cs generalizing run with
  | nil =>
    rcases hread with ⟨_, hnone⟩ | hnone | hellipsis
    · cases hnone
    · cases hnone
    · rwa [joined, List.append_nil]
  | cons c cs ih =>
    rw [joined] at hmarks ⊢
    cases hjoins : joins run c cs.head? with
    | true =>
      simp only [hjoins, if_true] at hmarks ⊢
      have hwhole : run.reverse ++ c :: joined (c :: run) cs
          = (c :: run).reverse ++ joined (c :: run) cs := by simp
      rw [hwhole] at hmarks ⊢
      refine ih ?_ hmarks
      have hrun : ∀ d ∈ run, isMark d = true := fun d hd => hmarks d (by simp [hd])
      rcases joins_marks hjoins hrun (hmarks c (by simp)) with ⟨rfl, rfl, hahead⟩ | hdigit | hellipsis
      · exact .inl ⟨rfl, hahead⟩
      · exact .inr (.inl hdigit)
      · exact .inr (.inr hellipsis)
    | false =>
      simp only [Bool.false_eq_true, if_false, List.append_nil]
      -- the token ends here, so neither a second point nor a digit follows
      rcases hread with ⟨rfl, hpoint⟩ | hdigit | hellipsis
      · obtain rfl : c = '.' := Option.some.inj hpoint
        rw [joins_point_point] at hjoins
        cases hjoins
      · rw [joins_of_isDigit (d := c) hdigit] at hjoins
        cases hjoins
      · exact hellipsis

/-! ## Kinds -/

/-- An ellipsis is a delimiter, if it is not followed by a mark. -/
theorem kind_ofRun_of_isEllipsis (h : IsEllipsis (String.ofList run.reverse)) :
    (ofRun run).kind = .delimiter := by
  simp only [ofRun]
  rcases h with h | h <;> simp [h]

/-- What is true of a token before other characters: it is a word of marks only if it is an ellipsis, and
then a mark follows it. -/
structure Placed (t : Token) (rest : List Char) : Prop where
  word : t.kind = .word → AllMarks t.text → IsEllipsis t.text
  ellipsis : IsEllipsis t.text → t.kind = if rest.head?.any isMark then .word else .delimiter

/-- A token is placed if it has a single character. -/
theorem placed_of_length {t : Token} (hlength : t.text.length = 1)
    (hword : t.kind = .word → ¬AllMarks t.text) (rest : List Char) : Placed t rest where
  word hkind hmarks := absurd hmarks (hword hkind)
  ellipsis h := by
    rcases h with h | h
    · rw [h] at hlength
      exact absurd hlength (by decide)
    · rw [h] at hlength
      exact absurd hlength (by decide)

/-- A placed token is a word of marks just if it is an ellipsis with a mark behind it. -/
theorem Placed.word_iff (h : Placed t rest) :
    (t.kind = .word ∧ AllMarks t.text) ↔ IsEllipsis t.text ∧ rest.head?.any isMark = true := by
  constructor
  · rintro ⟨hkind, hmarks⟩
    have hellipsis := h.word hkind hmarks
    have hplaced := h.ellipsis hellipsis
    rw [hkind] at hplaced
    refine ⟨hellipsis, ?_⟩
    -- an ellipsis without a mark behind it is a mark itself
    by_contra hnone
    rw [if_neg hnone] at hplaced
    cases hplaced
  · rintro ⟨hellipsis, hmark⟩
    exact ⟨by rw [h.ellipsis hellipsis, if_pos hmark], hellipsis.allMarks⟩

/-- One character by itself is no ellipsis, and no word if it is a mark. -/
theorem placed_ofAlone (c : Char) (rest : List Char) : Placed (ofAlone c) rest := by
  have hlength : (ofAlone c).text.length = 1 := by simp [text_ofAlone]
  refine placed_of_length hlength ?_ rest
  unfold ofAlone
  split
  · exact fun _ => by decide
  · intro hkind
    simp only [ofMark] at hkind
    split at hkind <;> cases hkind

/-- A token that is read from a run is placed. What it may have been joined with decides: either it
is a single character, or it was read on with up to the character where it ends. -/
theorem placed_readRun (hc : isSpacing c = false) (cs : List Char) :
    ∃ rest, c :: cs = (readRun [] (c :: cs)).1.text.toList ++ rest
      ∧ Placed (readRun [] (c :: cs)).1 rest := by
  cases hjoins : joins [] c cs.head? with
  | true =>
    obtain ⟨rest, hrest, hread⟩ := fst_readRun (List.cons_ne_nil c []) cs
    rw [readRun_of_joins hjoins, hread]
    have hellipsis : AllMarks (String.ofList ([c].reverse ++ joined [c] cs)) →
        IsEllipsis (String.ofList ([c].reverse ++ joined [c] cs)) := by
      intro hmarks
      rw [allMarks_ofList] at hmarks
      apply isEllipsis_joined _ hmarks
      -- what is read on with after one mark
      rcases joins_marks hjoins (by simp) (hmarks c (by simp)) with ⟨-, rfl, hahead⟩ | hdigit | hone
      · exact .inl ⟨rfl, hahead⟩
      · exact .inr (.inl hdigit)
      · exact .inr (.inr hone)
    -- the token is a word where a mark follows, and what the whole run spells otherwise
    refine ⟨rest, ?_, ?_⟩
    · split
      · simp [← hrest]
      · simp [ofRun, ← hrest]
    · split
      · rename_i hmark
        exact ⟨fun _ => hellipsis, fun _ => by rw [hmark]; rfl⟩
      · rename_i hmark
        have htext : (ofRun ((joined [c] cs).reverse ++ [c])).text
            = String.ofList ([c].reverse ++ joined [c] cs) := by simp [ofRun]
        constructor
        · intro _ hmarks
          rw [htext] at hmarks ⊢
          exact hellipsis hmarks
        · intro h
          rw [if_neg hmark, kind_ofRun_of_isEllipsis h]
  | false =>
    rw [readRun_nil_of_not_joins hc hjoins]
    exact ⟨cs, by simp [text_ofAlone], placed_ofAlone c cs⟩

/-! ## Where a token stands -/

/-- The characters directly behind the token that is read next. -/
def behind (cs : List Char) (t : Token) : List Char := (trimmed cs).drop t.text.length

/-- One of the tokens of some characters, and the characters directly behind it. -/
inductive Occurs : Bool → List Char → Token → List Char → Prop where
  | next {minus : Bool} {cs : List Char} {t : Token} (h : (next? minus cs).1 = some t) :
      Occurs minus cs t (behind cs t)
  | later {minus minus' : Bool} {cs cs' rest : List Char} {t u : Token}
      (hnext : next? minus cs = (some u, minus', cs')) (hlater : Occurs minus' cs' t rest) :
      Occurs minus cs t rest

/-- The tokens that occur are the next one and those that occur behind it. This is the step by which
statements about all tokens are proved. -/
theorem exists_occurs_iff {minus' : Bool} {cs' : List Char} (hnext : next? minus cs = (some u, minus', cs')) :
    (∃ rest, Occurs minus cs t rest) ↔ t = u ∨ ∃ rest, Occurs minus' cs' t rest := by
  constructor
  · rintro ⟨rest, h⟩
    cases h with
    | next h =>
      rw [hnext] at h
      exact .inl (Option.some.inj h).symm
    | later hother hlater =>
      rw [hnext] at hother
      cases hother
      exact .inr ⟨rest, hlater⟩
  · rintro (rfl | ⟨rest, hlater⟩)
    · exact ⟨_, .next (by rw [hnext])⟩
    · exact ⟨rest, .later hnext hlater⟩

/-- Where there is no next token, none occurs. -/
theorem not_occurs (hnone : (next? minus cs).1 = none) : ¬Occurs minus cs t rest := by
  intro h
  cases h with
  | next h =>
    rw [hnone] at h
    cases h
  | later hnext _ =>
    rw [hnext] at hnone
    cases hnone

/-- Passing over punctuation loses no other token. -/
theorem exists_occurs_nextKept? {skip : Bool} (ht : (skip && t.isPunctuation) = false) :
    (∃ rest, Occurs minus cs t rest) ↔
      (nextKept? skip minus cs).1 = some t
        ∨ (nextKept? skip minus cs).1 ≠ none
          ∧ ∃ rest, Occurs (nextKept? skip minus cs).2.1 (nextKept? skip minus cs).2.2 t rest := by
  fun_induction nextKept? skip minus cs with
  | case1 minus cs minus' cs' hnext =>
    have hnone : (next? minus cs).1 = none := by rw [hnext]
    simp [not_occurs hnone]
  | case2 minus cs u minus' cs' hnext hpunctuation ih =>
    -- the token that is passed over is punctuation, so it is not the one that is looked for
    have hother : t ≠ u := by
      rintro rfl
      rw [hpunctuation] at ht
      cases ht
    rw [exists_occurs_iff hnext, ← ih]
    simp [hother]
  -- the token is kept, so it is the next one itself
  | case3 minus cs u minus' cs' hnext hkept =>
    rw [exists_occurs_iff hnext]
    simp [eq_comm]

/-- A token that is kept is none that is passed over. -/
theorem kept_nextKept? {skip : Bool} (h : (nextKept? skip minus cs).1 = some t) :
    (skip && t.isPunctuation) = false := by
  fun_induction nextKept? skip minus cs with
  | case1 => cases h
  | case2 minus cs u minus' cs' hnext hpunctuation ih => exact ih h
  | case3 minus cs u minus' cs' hnext hkept =>
    cases h
    simpa using hkept

/-- The tokens that are read are those that occur, less the punctuation that is passed over. The
recursion is that of the reader, with the characters behind each token as the state. -/
theorem mem_readAll_iff {skip : Bool} :
    t ∈ (readAll skip minus cs).1 ↔ (skip && t.isPunctuation) = false ∧ ∃ rest, Occurs minus cs t rest := by
  fun_induction readAll skip minus cs with
  | case1 minus cs minus' cs' hnext =>
    constructor
    · intro h
      cases h
    · rintro ⟨ht, h⟩
      rw [exists_occurs_nextKept? ht, hnext] at h
      simp at h
  | case2 minus cs u minus' cs' hnext ts minus'' cs'' hrest ih =>
    rw [hrest] at ih
    have hu := kept_nextKept? (congrArg Prod.fst hnext)
    rw [List.mem_cons, ih]
    constructor
    -- a token that is read is the next one or one of those behind it
    · rintro (rfl | ⟨ht, h⟩)
      · exact ⟨hu, (exists_occurs_nextKept? hu).2 (.inl (by rw [hnext]))⟩
      · refine ⟨ht, (exists_occurs_nextKept? ht).2 (.inr ?_)⟩
        rw [hnext]
        exact ⟨Option.some_ne_none u, h⟩
    · rintro ⟨ht, h⟩
      rw [exists_occurs_nextKept? ht, hnext] at h
      rcases h with h | ⟨-, h⟩
      · exact .inl (Option.some.inj h).symm
      · exact .inr ⟨ht, h⟩

/-- A sentence is the front of the whole text. -/
theorem readSentence_prefix_readAll (skip minus : Bool) (cs : List Char) :
    (readSentence skip minus cs).1 <+: (readAll skip minus cs).1 := by
  fun_induction readSentence skip minus cs with
  | case1 => exact List.nil_prefix
  | case2 => exact List.nil_prefix
  | case3 minus cs t minus' cs' hnext hkind ts minus'' cs'' hrest ih =>
    rw [hrest] at ih
    rw [readAll_eq, hnext]
    exact (List.prefix_cons_inj t).2 ih

/-! ## Every token is placed -/

/-- Reading a run leaves the end of the characters: it takes some from the front, and puts back at
most the one that it took last. -/
theorem readRun_suffix (run cs : List Char) : (readRun run cs).2.2 <:+ cs := by
  induction cs generalizing run with
  | nil =>
    have hend : readRun run ([] : List Char) = (ofRun run, false, []) := readRun_of_none rfl
    simp only [hend, List.suffix_rfl]
  | cons c cs ih =>
    have hall : c :: cs <:+ c :: cs := List.suffix_rfl
    have hbehind : cs <:+ c :: cs := List.suffix_cons c cs
    -- each way out leaves all that is there or all but one character
    rw [readRun_cons]
    split
    · split
      · exact hall
      · exact hbehind
    · split
      · exact hall
      · split
        · exact hbehind
        · split
          · split
            · split
              · exact (ih _).trans hbehind
              · exact hbehind
            · exact hall
          · exact (ih _).trans hbehind

/-- So does reading a token. -/
theorem next?_suffix (minus : Bool) (cs : List Char) : (next? minus cs).2.2 <:+ cs := by
  have htrimmed : trimmed cs <:+ cs := List.dropWhile_suffix _
  cases hcons : trimmed cs with
  | nil =>
    rw [next?_of_trimmed_eq_nil minus hcons]
    exact List.nil_suffix
  | cons c rest =>
    -- a break takes the spacing only, and any other token starts behind it
    by_cases hfew : lineEnds cs < 2
    · rw [next?_of_trimmed_eq_cons minus hcons hfew]
      rw [hcons] at htrimmed
      split
      · exact (List.suffix_cons c rest).trans htrimmed
      · exact (readRun_suffix [] (c :: rest)).trans htrimmed
    · rw [next?_of_blankLine minus (by simp [hcons]) (by omega)]
      exact htrimmed

/-- A token is placed in front of what is behind it. The kinds of tokens are gone through: breaks,
marks that stand alone, and what is read from a run. -/
theorem placed_next? (h : (next? minus cs).1 = some t) :
    Placed t (behind cs t) ∧ (t.kind ≠ .paragraph → t.text.toList ++ behind cs t = trimmed cs) := by
  -- what is dropped is the text, wherever the token starts with it
  have hbehind {rest : List Char} (hsplit : trimmed cs = t.text.toList ++ rest) (hplaced : Placed t rest) :
      Placed t (behind cs t) ∧ (t.kind ≠ .paragraph → t.text.toList ++ behind cs t = trimmed cs) := by
    have hrest : behind cs t = rest := by
      rw [behind, hsplit, ← String.length_toList, List.drop_left]
    rw [hrest]
    exact ⟨hplaced, fun _ => hsplit.symm⟩
  cases hcons : trimmed cs with
  | nil =>
    rw [next?_of_trimmed_eq_nil minus hcons] at h
    cases h
  | cons c rest =>
    rw [← hcons]
    by_cases hfew : lineEnds cs < 2
    -- a minus sign that was put back stands alone; any other token is read as a run
    · rw [next?_of_trimmed_eq_cons minus hcons hfew] at h
      split at h
      · rename_i hminus
        cases h
        obtain rfl : c = '-' := beq_iff_eq.1 (Bool.and_eq_true_iff.1 hminus).2
        exact hbehind hcons (placed_of_length (by decide) (fun _ => by decide) rest)
      · cases h
        obtain ⟨rest', hsplit, hplaced⟩ := placed_readRun (isSpacing_of_trimmed_eq_cons hcons) rest
        exact hbehind (hcons.trans hsplit) hplaced
    -- a paragraph break takes nothing of the text
    · rw [next?_of_blankLine minus (by simp [hcons]) (by omega)] at h
      cases h
      exact ⟨placed_of_length (by decide) (fun hkind => absurd hkind (by decide)) _,
        fun hkind => absurd rfl hkind⟩

/-- Every token that occurs is placed. -/
theorem Occurs.placed (h : Occurs minus cs t rest) : Placed t rest := by
  induction h with
  | next h => exact (placed_next? h).1
  | later _ _ ih => exact ih

/-- There is one break only. -/
theorem Occurs.eq_paragraphBreak (h : Occurs minus cs t rest) (hkind : t.kind = .paragraph) :
    t = paragraphBreak := by
  induction h with
  | next h => exact eq_paragraphBreak_of_next? h hkind
  | later _ _ ih => exact ih hkind

/-- A paragraph break has a character that is no mark. -/
theorem Occurs.kind_eq_word (h : Occurs minus cs t rest) (hkept : t.isPunctuation = false)
    (hmarks : AllMarks t.text) : t.kind = .word := by
  cases hkind : t.kind with
  | word => rfl
  | ending | delimiter => simp [isPunctuation, hkind] at hkept
  | paragraph =>
    rw [h.eq_paragraphBreak hkind] at hmarks
    exact absurd hmarks (by decide)

/-- A token and what is behind it are the end of the characters. -/
theorem Occurs.suffix (h : Occurs minus cs t rest) (hkind : t.kind ≠ .paragraph) :
    t.text.toList ++ rest <:+ cs := by
  induction h with
  | next h =>
    rw [(placed_next? h).2 hkind]
    exact List.dropWhile_suffix _
  | @later minus _ cs _ _ _ _ hnext _ ih =>
    have hsuffix := next?_suffix minus cs
    rw [hnext] at hsuffix
    exact (ih hkind).trans hsuffix

end Token

/-- A token of a text is a word of marks only where an ellipsis stands directly before another mark;
everywhere else an ellipsis is a delimiter. The tokens that occur in a text are those that are read. So
when punctuation is skipped, a token that is left has a character that is no mark, or it is an ellipsis
before a mark. -/
theorem word_of_marks_iff (text : String) :
    (∀ t rest, Token.Occurs false text.toList t rest →
        ((t.kind = .word ∧ Token.AllMarks t.text) ↔
          Token.IsEllipsis t.text ∧ rest.head?.any Token.isMark = true)
        ∧ (Token.IsEllipsis t.text → rest.head?.any Token.isMark = false → t.kind = .delimiter)
        ∧ (t.kind ≠ .paragraph → t.text.toList ++ rest <:+ text.toList))
      ∧ (∀ skip t, t ∈ tokensOf skip text ↔
        (skip && t.isPunctuation) = false ∧ ∃ rest, Token.Occurs false text.toList t rest)
      ∧ (∀ word ∈ tokenize true text, Token.AllMarks word →
        Token.IsEllipsis word ∧ ∃ m, Token.isMark m = true ∧ word.toList ++ [m] <:+: text.toList) := by
  refine ⟨fun t rest h => ⟨h.placed.word_iff, fun hellipsis hnone => ?_, h.suffix⟩,
    fun skip t => Token.mem_readAll_iff, ?_⟩
  · rw [h.placed.ellipsis hellipsis, hnone]
    rfl
  · intro word hmem hmarks
    obtain ⟨t, ht, rfl⟩ := List.mem_map.1 hmem
    have hread := (Token.readSentence_prefix_readAll true false text.toList).subset ht
    obtain ⟨hkept, rest, hoccurs⟩ := Token.mem_readAll_iff.1 hread
    have hkind := hoccurs.kind_eq_word hkept hmarks
    obtain ⟨hellipsis, hmark⟩ := hoccurs.placed.word_iff.1 ⟨hkind, hmarks⟩
    obtain ⟨m, hm, hmark⟩ := (Option.any_eq_true _ _).1 hmark
    -- the mark is the first of what is behind the token
    have hnext : [m] <+: rest := by
      cases rest with
      | nil => cases hm
      | cons d rest =>
        rw [List.head?_cons, Option.some.injEq] at hm
        exact ⟨rest, by rw [hm]; rfl⟩
    have hsuffix := hoccurs.suffix (by rw [hkind]; decide)
    exact ⟨hellipsis, m, hmark, ((List.prefix_append_right_inj _).2 hnext).isInfix.trans hsuffix.isInfix⟩

/-- The points in front of a question mark. -/
theorem word_of_marks_iff_what :
    "..." ∈ tokenize true "what...?" ∧ Token.AllMarks "..." ∧ Token.IsEllipsis "..."
      ∧ ∃ m, Token.isMark m = true ∧ "...".toList ++ [m] <:+: "what...?".toList := by
  have hmem : "..." ∈ tokenize true "what...?" := by decide +kernel
  have hmarks : Token.AllMarks "..." := by decide
  exact ⟨hmem, hmarks, (word_of_marks_iff "what...?").2.2 "..." hmem hmarks⟩

/-- In `what...?` the points are followed by a mark and count as a word, which is kept among the
words. Where a blank follows them they are dropped with the other marks. -/
theorem tokenize_points_before_mark :
    tokenize true "what...?" = ["what", "..."] ∧ tokenize true "what... so" = ["what", "so"]
      ∧ tokensOf false "what...?" = [⟨"what", .word⟩, ⟨"...", .word⟩, ⟨"?", .ending⟩] := by
  decide +kernel

end Utterance
