import Utterance.Proofs.Token.Agreement
import Utterance.Proofs.Token.Conservation

/-!
# Sentences that are put together again

The tokens of a sentence, with single spaces between them, are cut into the same tokens again. Where a token
ends may depend on the character that follows, and that one is another in the new sentence. But if it matters,
it is a digit or a point that belongs to the token itself. So a token ends in a new place only where it
ended before, and a space ends it as well as anything else. A minus sign cuts no token off then, since a
space stands between the two, and is still read as a token by itself.
-/

namespace Utterance

namespace Token

/-! ## Reading a list -/

variable {run cs rest : List Char} {c d : Char} {ahead other : Option Char}

/-- What follows matters only to a mark in a number, and only if it is a digit. -/
theorem endsWord_eq (run : List Char) (c : Char) (ahead : Option Char) :
    endsWord run c ahead = (!(isInNumber c && ahead.any Text.isDigit) && endsWord run c none) := by
  unfold endsWord
  cases isMark c <;> cases isInNumber c && ahead.any Text.isDigit <;> simp

/-- One step of reading on with a token in a list of characters. -/
theorem readRun_cons (run : List Char) (c : Char) (cs : List Char) :
    readRun run (c :: cs) =
      if isSpacing c then (ofRun run, false, if c = '\n' then c :: cs else cs)
      else if c == '-' && run.head?.any Text.isDigit then (ofRun run, true, c :: cs)
      else if c == '$' && run.isEmpty then (⟨"$", .word⟩, false, cs)
      else if endsWord run c cs.head? then
        if run.isEmpty then
          if c == '.' && cs.head? == some '.' then readRun [c] cs else (ofMark c, false, cs)
        else (⟨String.ofList run.reverse, .word⟩, false, c :: cs)
      else readRun (c :: run) cs := by
  rw [readRun_of_some rfl]
  -- the second character is looked at only behind one that may stand in a number; behind any other
  -- it does not matter, and it has not been read
  cases hnumber : isInNumber c with
  | true => rfl
  | false =>
    have hpoint : (c == '.') = false := by
      simp only [isInNumber, Bool.or_eq_false_iff] at hnumber
      exact hnumber.2
    simp only [Reader.peekIf, Bool.false_eq_true, if_false, hpoint, Bool.false_and,
      endsWord_eq run c cs.head?, hnumber, Bool.not_false, Bool.true_and]
    rfl

/-- Whether the character `c` belongs to the token of which the characters `run`, the last one first, have
been read, where `ahead` is the character that follows. -/
def joins (run : List Char) (c : Char) (ahead : Option Char) : Bool :=
  if isSpacing c || (c == '-' && run.head?.any Text.isDigit) || (c == '$' && run.isEmpty) then false
  else !endsWord run c ahead || (run.isEmpty && c == '.' && ahead == some '.')

/-- The characters that belong to the token of which `run` has been read. -/
def joined (run : List Char) : List Char → List Char
  | [] => []
  | c :: cs => if joins run c cs.head? then c :: joined (c :: run) cs else []

/-- Reading on takes a character that belongs to the token. -/
theorem readRun_of_joins (h : joins run c cs.head? = true) :
    readRun run (c :: cs) = readRun (c :: run) cs := by
  rw [readRun_cons]
  unfold joins at h
  split at h
  · cases h
  · rename_i hstays
    simp only [Bool.or_eq_true, not_or, Bool.not_eq_true] at hstays
    obtain ⟨⟨hspacing, hminus⟩, hdollar⟩ := hstays
    simp only [hspacing, hminus, hdollar, Bool.false_eq_true, if_false]
    -- a mark that would end the token joins it only as the first point of an ellipsis
    cases hends : endsWord run c cs.head? with
    | false => rfl
    | true =>
      simp only [hends, Bool.not_true, Bool.false_or, Bool.and_eq_true, List.isEmpty_iff] at h
      obtain ⟨⟨rfl, hpoint⟩, hahead⟩ := h
      simp only [List.isEmpty_nil, if_true, hpoint, hahead, Bool.and_self]

theorem isMark_of_isSpacing (h : isSpacing c = true) : isMark c = false := by
  simp only [isSpacing, Bool.or_eq_true, beq_iff_eq] at h
  rcases h with ((rfl | rfl) | rfl) | rfl <;> decide

/-- Only a mark ends a word that is being read. -/
theorem isMark_of_endsWord (h : endsWord run c ahead = true) : isMark c = true := by
  unfold endsWord at h
  split at h
  · cases h
  · rename_i hmark
    simpa using hmark

/-- A token that was read on with is a word if a mark follows it, and otherwise what its characters
make. The induction is on the characters that are left, for any characters that were read before. -/
theorem fst_readRun (hrun : run ≠ []) (cs : List Char) :
    ∃ rest, cs = joined run cs ++ rest
      ∧ (readRun run cs).1 = if rest.head?.any isMark then
          ⟨String.ofList (run.reverse ++ joined run cs), .word⟩
        else ofRun ((joined run cs).reverse ++ run) := by
  induction cs generalizing run with
  | nil => exact ⟨[], rfl, by rw [readRun_of_none rfl]; rfl⟩
  | cons c cs ih =>
    rw [joined]
    cases hjoins : joins run c cs.head? with
    | true =>
      -- the run goes on, and ends where the longer run does
      obtain ⟨rest, hrest, hread⟩ := ih (List.cons_ne_nil c run)
      refine ⟨rest, by simpa using hrest, ?_⟩
      rw [readRun_of_joins hjoins, hread]
      simp
    | false =>
      -- spacing and a cut before a minus sign end the token in one way, a mark ends it in another
      refine ⟨c :: cs, by simp, ?_⟩
      have hsome : run.isEmpty = false := by simpa using hrun
      rw [readRun_cons]
      unfold joins at hjoins
      simp only [hsome, Bool.and_false, Bool.false_and, Bool.or_false, Bool.false_eq_true, if_false,
        List.append_nil, List.reverse_nil, List.nil_append, List.head?_cons, Option.any_some] at hjoins ⊢
      split
      · rename_i hspacing
        rw [isMark_of_isSpacing hspacing]
        rfl
      · rename_i hspacing
        split
        · rename_i hminus
          rw [beq_iff_eq.1 (Bool.and_eq_true_iff.1 hminus).1]
          rfl
        · rename_i hminus
          have hends : endsWord run c cs.head? = true := by simpa [hspacing, hminus] using hjoins
          simp only [hends, isMark_of_endsWord hends, if_true]

/-- The text of a token is what was read of it and what belongs to it of the rest. -/
theorem text_readRun (hrun : run ≠ []) (cs : List Char) :
    (readRun run cs).1.text = String.ofList (run.reverse ++ joined run cs) := by
  obtain ⟨rest, -, hread⟩ := fst_readRun hrun cs
  rw [hread]
  split
  · rfl
  · simp [ofRun]

/-- The token that a dollar sign or a mark makes by itself. -/
def ofAlone (c : Char) : Token := if c = '$' then ⟨"$", .word⟩ else ofMark c

/-- A token of one character has that character as its text. -/
theorem text_ofAlone (c : Char) : (ofAlone c).text = String.singleton c := by
  unfold ofAlone
  split
  · rename_i hdollar
    rw [hdollar]
    rfl
  · rfl

/-- A dollar sign or a mark is a token by itself. -/
theorem readRun_nil_of_not_joins (hc : isSpacing c = false) (h : joins [] c cs.head? = false) :
    readRun [] (c :: cs) = (ofAlone c, false, cs) := by
  rw [readRun_cons, ofAlone]
  unfold joins at h
  simp only [hc, List.head?_nil, Option.any_none, Bool.and_false, List.isEmpty_nil, Bool.and_true,
    Bool.false_or, Bool.true_and, Bool.false_eq_true, if_false, if_true, beq_iff_eq] at h ⊢
  split
  · rfl
  · rename_i hdollar
    simp only [hdollar, if_false, Bool.or_eq_false_iff, Bool.not_eq_false'] at h
    simp only [h.1, h.2, if_true, Bool.false_eq_true, if_false]

/-- The first token of a list that starts with no spacing. -/
def firstWord : List Char → List Char
  | [] => []
  | c :: cs => c :: if joins [] c cs.head? then joined [c] cs else []

theorem firstWord_singleton (c : Char) : firstWord [c] = [c] := by
  rw [firstWord, joined, ite_self]

/-- The text of the token that a list starts with. -/
theorem text_readRun_nil (hc : isSpacing c = false) (cs : List Char) :
    (readRun [] (c :: cs)).1.text = String.ofList (firstWord (c :: cs)) := by
  rw [firstWord]
  cases hjoins : joins [] c cs.head? with
  | true =>
    rw [readRun_of_joins hjoins, text_readRun (List.cons_ne_nil c [])]
    rfl
  | false =>
    rw [readRun_nil_of_not_joins hc hjoins]
    exact text_ofAlone c

/-! ## What follows a token -/

/-- A digit is none of the characters that end a token. -/
theorem of_isDigit (h : Text.isDigit d = true) :
    isSpacing d = false ∧ d ≠ '-' ∧ d ≠ '$' ∧ isMark d = false := by
  -- these are finitely many characters, and none of them is a digit
  have hnone : ([' ', '\t', '\r', '\n', '-', '$'] ++ marks).all (!Text.isDigit ·) = true := by decide
  have hother : ∀ c ∈ [' ', '\t', '\r', '\n', '-', '$'] ++ marks, d ≠ c := by
    rintro c hc rfl
    have hno := List.all_eq_true.1 hnone d hc
    rw [h] at hno
    cases hno
  refine ⟨?_, hother '-' (by decide), hother '$' (by decide), ?_⟩
  · simp [isSpacing, hother]
  · rw [isMark, List.contains_eq_mem, decide_eq_false_iff_not]
    exact fun hmem => hother d (List.mem_append_right _ hmem) rfl

/-- A digit belongs to every token. -/
theorem joins_of_isDigit (h : Text.isDigit d = true) (run : List Char) (ahead : Option Char) :
    joins run d ahead = true := by
  obtain ⟨hspacing, hminus, hdollar, hmark⟩ := of_isDigit h
  simp [joins, hspacing, hminus, hdollar, endsWord, hmark]

/-- A second point belongs to an ellipsis. -/
theorem joins_point_point (ahead : Option Char) : joins ['.'] '.' ahead = true := by
  have hends : endsWord ['.'] '.' none = false := by decide
  rw [joins, if_neg (by decide), endsWord_eq, hends, Bool.and_false]
  rfl

/-- If it matters what follows a character of a token, the one that follows belongs to the token, whatever
comes then. -/
theorem joins_or_joins (h : joins run c ahead = true) :
    (∀ other, joins run c other = true)
      ∨ ∃ d, ahead = some d ∧ ∀ other, joins (c :: run) d other = true := by
  unfold joins at h
  split at h
  · cases h
  · rename_i hstays
    rw [Bool.or_eq_true, Bool.not_eq_true', endsWord_eq, Bool.and_eq_false_iff, Bool.not_eq_false'] at h
    -- why the character belongs to the token
    rcases h with (hnumber | hends) | hpoints
    · -- a digit
      rw [Bool.and_eq_true, Option.any_eq_true] at hnumber
      obtain ⟨-, d, rfl, hdigit⟩ := hnumber
      exact .inr ⟨d, rfl, joins_of_isDigit hdigit (c :: run)⟩
    · -- neither a mark, nor one that ends the token
      refine .inl fun other => ?_
      rw [joins, if_neg hstays, endsWord_eq, hends, Bool.and_false]
      rfl
    · -- the second point of an ellipsis
      simp only [Bool.and_eq_true, List.isEmpty_iff, beq_iff_eq] at hpoints
      obtain ⟨⟨rfl, rfl⟩, rfl⟩ := hpoints
      exact .inr ⟨'.', rfl, joins_point_point⟩

/-- What a token is followed by when tokens are put together. -/
def Parted (rest : List Char) : Prop := ∀ c ∈ rest.head?, c = ' '

/-- A token ends at the space that parts it from the next one. -/
theorem readRun_of_parted (h : Parted rest) (run : List Char) :
    readRun run rest = (ofRun run, false, rest.tail) := by
  cases rest with
  | nil => exact readRun_of_none rfl
  | cons c rest =>
    obtain rfl : c = ' ' := h c rfl
    rw [readRun_cons, if_pos (by decide), if_neg (by decide)]
    rfl

/-- A character of a token belongs to it again, whatever the token is followed by then. What follows
a character in the token was part of it, and what follows the last one does not matter to it. -/
theorem joins_again (hjoins : joins run c cs.head? = true) (rest : List Char) :
    joins run c (joined (c :: run) cs ++ rest).head? = true := by
  rcases joins_or_joins hjoins with hany | ⟨d, hahead, hnext⟩
  · exact hany _
  · -- the next character is in the token, so it is still the one that follows
    obtain ⟨ds, rfl⟩ : ∃ ds, cs = d :: ds := by
      cases cs with
      | nil => cases hahead
      | cons e ds => exact ⟨ds, by rw [Option.some.inj hahead]⟩
    rw [joined, hnext, if_pos rfl]
    exact hjoins

/-- The characters of a token are read again up to where the token ended, whatever stands behind
them now. What comes next may end the token there or may not. -/
theorem readRun_joined_append (run cs rest : List Char) :
    readRun run (joined run cs ++ rest) = readRun ((joined run cs).reverse ++ run) rest := by
  induction cs generalizing run with
  | nil => rfl
  | cons c cs ih =>
    rw [joined]
    cases hjoins : joins run c cs.head? with
    | false => rfl
    | true =>
      rw [if_pos rfl, List.cons_append, readRun_of_joins (joins_again hjoins rest), ih,
        List.reverse_cons, List.append_assoc]
      rfl

/-! ## Steady texts -/

/-- A text that is read as one token again, whatever it is parted from. A space after it may be read with
it. -/
structure Steady (text : String) : Prop where
  start : ∃ c cs, text.toList = c :: cs ∧ isSpacing c = false
  read : ∀ rest, Parted rest → ∃ t left, readRun [] (text.toList ++ rest) = (t, false, left)
    ∧ t.text = text ∧ (left = rest ∨ left = rest.tail)

/-- The first token of a list is steady. Reading it again may take it character by character, or it
is a single mark that stands alone. -/
theorem steady_firstWord (hc : isSpacing c = false) (cs : List Char) :
    Steady (String.ofList (firstWord (c :: cs))) := by
  refine ⟨⟨c, _, String.toList_ofList, hc⟩, fun rest hrest => ?_⟩
  rw [String.toList_ofList, firstWord]
  -- once it has been read on with, the token ends at the space
  have hreads : ∀ ds, joins [] c (joined [c] ds ++ rest).head? = true →
      ∃ t left, readRun [] (c :: (joined [c] ds ++ rest)) = (t, false, left)
        ∧ t.text = String.ofList (c :: joined [c] ds) ∧ (left = rest ∨ left = rest.tail) := by
    intro ds hjoins
    refine ⟨ofRun ((joined [c] ds).reverse ++ [c]), rest.tail, ?_, ?_, .inr rfl⟩
    · rw [readRun_of_joins hjoins, readRun_joined_append, readRun_of_parted hrest]
    · simp [ofRun]
  -- whether the first character was read on with, and whether it is now
  cases hjoins : joins [] c cs.head? with
  | true => exact hreads cs (joins_again hjoins rest)
  | false =>
    rw [if_neg Bool.false_ne_true]
    cases halone : joins [] c rest.head? with
    | true => exact hreads [] halone
    | false =>
      exact ⟨ofAlone c, rest, readRun_nil_of_not_joins hc halone, text_ofAlone c, .inl rfl⟩

/-- A character by itself is the first token of a list that holds nothing else. -/
theorem steady_singleton (hc : isSpacing c = false) : Steady (String.singleton c) := by
  rw [String.singleton_eq_ofList, ← firstWord_singleton c]
  exact steady_firstWord hc []

/-- The tokens of a sentence are steady, since each of them is the first token of what was left, or
a single character. -/
theorem steady_of_mem_readSentence {skip minus : Bool} {t : Token}
    (h : t ∈ (readSentence skip minus cs).1) : Steady t.text := by
  apply text_of_mem_readSentence (fun c => steady_singleton) ?_ h
  rintro _ c ds rfl hc
  rw [text_readRun_nil hc]
  exact steady_firstWord hc ds

/-! ## Sentences of steady tokens -/

/-- A space in front of a sentence makes no difference. -/
theorem readSentence_tail (h : Parted rest) (skip minus : Bool) :
    readSentence skip minus rest.tail = readSentence skip minus rest := by
  cases rest with
  | nil => rfl
  | cons c rest =>
    obtain rfl : c = ' ' := h c rfl
    have hskip : skipSpacing 0 (' ' :: rest) = skipSpacing 0 rest := by
      rw [skipSpacing_of_some rfl, if_pos (by decide), if_neg (by decide)]
    -- a single space is no blank line, so what follows is read in the same way
    have hnext : next? minus (' ' :: rest) = next? minus rest := by
      unfold next?
      rw [hskip]
    rw [List.tail_cons, readSentence_eq skip minus rest, readSentence_eq skip minus (' ' :: rest),
      nextKept?_eq skip minus rest, nextKept?_eq skip minus (' ' :: rest), hnext]

/-- A steady token is the next one of a list that starts with it. -/
theorem Steady.next? {text : String} (h : Steady text) (hrest : Parted rest) :
    ∃ t left, Token.next? false (text.toList ++ rest) = (some t, false, left) ∧ t.text = text
      ∧ t.kind ≠ .paragraph ∧ (left = rest ∨ left = rest.tail) := by
  obtain ⟨c, cs, htext, hc⟩ := h.start
  obtain ⟨t, left, hread, heq, hleft⟩ := h.read rest hrest
  refine ⟨t, left, ?_, heq, ?_, hleft⟩
  · have hskip : skipSpacing 0 (text.toList ++ rest) = (.inLine, text.toList ++ rest) := by
      rw [htext, List.cons_append, skipSpacing_of_some rfl, hc]
      rfl
    unfold Token.next?
    rw [hskip]
    simp only [Bool.false_and, Bool.false_eq_true, if_false]
    -- looking ahead in a list leaves the list
    rw [show readRun [] (Reader.peek (text.toList ++ rest)).2 = _ from hread]
  · have hkind := kind_readRun [] (text.toList ++ rest)
    rwa [hread] at hkind

/-- Steady tokens are cut from the text that has a space in front of each of them. The induction is
on the tokens: the first one is read as it is, and leaves the rest with or without its space. -/
theorem texts_readSentence {words : List String} (h : ∀ w ∈ words, Steady w) :
    (readSentence false false (words.flatMap fun w => ' ' :: w.toList)).1.map (·.text) = words := by
  induction words with
  | nil =>
    have hnone : next? false ([] : List Char) = (none, false, []) := by
      unfold next?
      rw [skipSpacing_of_none rfl]
    rw [List.flatMap_nil, readSentence_eq, nextKept?_false, hnone]
    rfl
  | cons w words ih =>
    have hrest : Parted (words.flatMap fun w => ' ' :: w.toList) := by
      cases words with
      | nil => simp [Parted]
      | cons v words => simp [Parted]
    have ih := ih fun v hv => h v (List.mem_cons_of_mem _ hv)
    obtain ⟨t, left, hnext, htext, hkind, hleft⟩ := (h w (List.mem_cons_self ..)).next? hrest
    -- whether the space after the token was read with it makes no difference
    have hafter : readSentence false false left
        = readSentence false false (words.flatMap fun w => ' ' :: w.toList) := by
      rcases hleft with rfl | rfl
      · rfl
      · exact readSentence_tail hrest false false
    have hspace : Parted (' ' :: (w.toList ++ words.flatMap fun w => ' ' :: w.toList)) := by
      simp [Parted]
    rw [List.flatMap_cons, List.cons_append, ← readSentence_tail hspace, List.tail_cons,
      readSentence_eq, nextKept?_false, hnext]
    simp only [hkind, if_false, List.map_cons, htext, hafter, ih]

/-- The list of the characters that are left is read as the source itself is. So what is proved of
lists holds of every source. -/
theorem agree_left {σ : Type} [Reader σ] :
    Reader.Agree (fun (s : σ) (cs : List Char) => Reader.left s = cs)
      (fun s cs => Reader.left s = cs) where
  wide_of_narrow h := h
  read := by
    rintro s _ rfl
    cases hread : Reader.read s with
    | mk c s' =>
      cases c with
      | none =>
        obtain ⟨hleft, hrest⟩ := Reader.read_none s s' hread
        rw [hleft]
        exact ⟨rfl, hrest⟩
      | some c =>
        rw [Reader.left_read s c s' hread]
        exact ⟨rfl, rfl⟩
  push := by
    rintro s _ c rfl
    exact Reader.left_push c s
  peek := by
    rintro s _ rfl
    exact ⟨Reader.peek_fst s, Reader.left_peek s⟩
  peek_narrow := by
    rintro s _ rfl
    exact Reader.left_peek s

end Token

/-- Lists with a separator between them are lists with the separator in front of each, less the
first separator. -/
theorem cons_intercalate (sep : Char) (first : List Char) (rest : List (List Char)) :
    sep :: [sep].intercalate (first :: rest) = (first :: rest).flatMap (sep :: ·) := by
  induction rest generalizing first with
  | nil => simp
  | cons second rest ih =>
    rw [List.intercalate_cons_cons, List.flatMap_cons, ← ih second, List.append_assoc]
    rfl

/-- Steady tokens with single spaces between them are cut apart again. -/
theorem tokenize_intercalate {words : List String} (h : ∀ w ∈ words, Token.Steady w) :
    tokenize false (" ".intercalate words) = words := by
  have hwords := Token.texts_readSentence h
  cases words with
  | nil => exact hwords
  | cons w words =>
    -- the lemma has a space before each token, the joined text has none before the first
    have hletters : ((w :: words).flatMap fun v => ' ' :: v.toList)
        = ' ' :: (" ".intercalate (w :: words)).toList := by
      have hspaced := cons_intercalate ' ' w.toList (words.map String.toList)
      rw [← List.map_cons, List.flatMap_map] at hspaced
      rw [String.toList_intercalate]
      exact hspaced.symm
    have hspace : Token.Parted (' ' :: (" ".intercalate (w :: words)).toList) := by
      simp [Token.Parted]
    rw [hletters, ← Token.readSentence_tail hspace] at hwords
    exact hwords

namespace TextSource

/-- What is read from the start of a source is read from a list or from a file, if from anything. A
source to which nothing is bound gives nothing. -/
theorem of_pullAll_eq_ok {φ α : Type} [OpenFile φ] {src : TextSource φ} {files : Files} {nothing a : α}
    {fromText : Bool → List Char → α × Bool × List Char}
    {fromFile : Bool → Buffered φ → α × Bool × Buffered φ}
    (h : (src.pullAll files nothing fromText fromFile).result = .ok a) :
    a = nothing ∨ (∃ minus left, a = (fromText minus left).1) ∨ ∃ minus s, a = (fromFile minus s).1 := by
  unfold pullAll at h
  simp only at h
  split at h
  · cases h
  · unfold pull at h
    split at h
    · cases h
      exact .inl rfl
    · cases h
      exact .inr (.inl ⟨_, _, rfl⟩)
    · simp only at h
      split at h
      · cases h
        exact .inr (.inr ⟨_, _, rfl⟩)
      · cases h

/-- The tokens of a sentence are steady, whatever source they are read from. A file is read as the
list of its characters. -/
theorem steady_of_tokens {φ : Type} [OpenFile φ] {src : TextSource φ} {files : Files} {skip : Bool}
    {words : List String}
    (h : (src.tokens files skip).result = .ok words) : ∀ w ∈ words, Token.Steady w := by
  unfold tokens at h
  simp only at h
  cases hpulled : (src.pullAll files [] (Token.readSentence skip) (Token.readSentence skip)).result with
  | error e =>
    rw [hpulled] at h
    cases h
  | ok ts =>
    rw [hpulled] at h
    cases h
    intro w hw
    obtain ⟨t, ht, rfl⟩ := List.mem_map.1 hw
    -- nothing is bound, or a text, or a file
    rcases of_pullAll_eq_ok hpulled with rfl | ⟨minus, left, rfl⟩ | ⟨minus, s, rfl⟩
    · cases ht
    · exact Token.steady_of_mem_readSentence ht
    · rw [(Token.agree_readSentence Token.agree_left skip minus s rfl).result] at ht
      exact Token.steady_of_mem_readSentence ht

/-- The sentence of a text is that of its tokens. -/
theorem sentence_ofString (text : String) (files : Files) (punctuation : Bool) :
    ((ofString text).sentence files punctuation).result
      = .ok (" ".intercalate (tokenize (!punctuation) text)) := rfl

end TextSource

/-- A sentence that is put together from its tokens is cut into the same tokens again. So a sentence that
was rebuilt is rebuilt as it is, whatever source it came from and whether its punctuation was kept or
not. -/
theorem tokenize_intercalate_tokenize :
    (∀ (text : String) (skip : Bool),
        tokenize false (" ".intercalate (tokenize skip text)) = tokenize skip text
          ∧ ∀ files, ((TextSource.ofString text).sentence files !skip).result
            = .ok (" ".intercalate (tokenize skip text)))
      ∧ ∀ {φ : Type} [OpenFile φ] (src : TextSource φ) (files files' : Files) (punctuation : Bool),
        ((src.sentence files punctuation).result >>= fun sentence =>
            ((TextSource.ofString sentence).sentence files' true).result)
          = (src.sentence files punctuation).result := by
  constructor
  · intro text skip
    constructor
    · apply tokenize_intercalate
      intro w hw
      obtain ⟨t, ht, rfl⟩ := List.mem_map.1 hw
      exact Token.steady_of_mem_readSentence ht
    · intro files
      rw [TextSource.sentence_ofString, Bool.not_not]
  · intro φ _ src files files' punctuation
    unfold TextSource.sentence
    simp only
    cases hwords : (src.tokens files !punctuation).result with
    | error e => rfl
    | ok words =>
      have hagain := tokenize_intercalate (TextSource.steady_of_tokens hwords)
      show ((TextSource.ofString (" ".intercalate words)).sentence files' true).result = _
      rw [TextSource.sentence_ofString, Bool.not_true, hagain]
      rfl

end Utterance
