import Utterance.Proofs.Token
import Utterance.Token.Source

/-!
# Characters of a text and of its tokens

Reading a token looks ahead and puts characters back at many places. All the same every character that
is no spacing comes out in exactly one token, in its order. So the tokens of a text, put together, are
the text without spacing, and when the last one has been read nothing is left.
-/

namespace Utterance

namespace Token

variable {σ : Type} [Reader σ]

/-! ## Written characters -/

/-- The characters of a text that are no spacing. -/
def written (cs : List Char) : List Char := cs.filter fun c => !isSpacing c

theorem written_cons_of_isSpacing {c : Char} (h : isSpacing c = true) (cs : List Char) :
    written (c :: cs) = written cs := by
  simp [written, h]

/-- A character that is no spacing is written. -/
theorem written_cons {c : Char} (h : isSpacing c = false) (cs : List Char) :
    written (c :: cs) = c :: written cs := by
  simp [written, h]

/-- What a token takes from its text: a paragraph break stands for spacing only. -/
def taken (t : Token) : List Char := if t.kind = .paragraph then [] else t.text.toList

theorem taken_of_kind_ne {t : Token} (h : t.kind ≠ .paragraph) : t.taken = t.text.toList := if_neg h

/-- A token of a run of characters is no break. -/
theorem kind_ofRun (run : List Char) : (ofRun run).kind ≠ .paragraph := by
  unfold ofRun
  simp only
  split <;> decide

/-- Nor is that of a mark. -/
theorem kind_ofMark (c : Char) : (ofMark c).kind ≠ .paragraph := by
  unfold ofMark
  simp only
  split <;> decide

theorem taken_ofRun (run : List Char) : (ofRun run).taken = run.reverse := by
  rw [taken_of_kind_ne (kind_ofRun run)]
  exact String.toList_ofList

theorem taken_ofMark (c : Char) : (ofMark c).taken = [c] := by
  rw [taken_of_kind_ne (kind_ofMark c)]
  exact String.toList_singleton c

/-! ## One token -/

/-- Skipping spacing skips nothing that is written. -/
theorem written_left_skipSpacing (breaks : Nat) (s : σ) :
    written (Reader.left (skipSpacing breaks s).2) = written (Reader.left s) := by
  fun_induction skipSpacing breaks s with
  | case1 breaks s s' h => rw [(Reader.read_none s s' h).1, (Reader.read_none s s' h).2]
  | case2 breaks s c s' h hc ih =>
    rw [Reader.left_read s c s' h, written_cons_of_isSpacing hc]
    exact ih
  | case3 breaks s c s' h hc => rw [Reader.left_push, Reader.left_read s c s' h]

/-- At the end nothing is left. -/
theorem left_skipSpacing_of_atEnd (breaks : Nat) (s : σ) (h : (skipSpacing breaks s).1 = .atEnd) :
    Reader.left (skipSpacing breaks s).2 = [] := by
  fun_induction skipSpacing breaks s with
  | case1 breaks s s' hr => exact (Reader.read_none s s' hr).2
  | case2 breaks s c s' _ _ ih => exact ih h
  | case3 breaks s c s' _ _ =>
    simp only at h
    split at h <;> cases h

/-- What was read before and what is left go into the token and what is left then. The recursion is
that of the reader, and each of its branches either puts a character into the run, puts it back, or
drops a space that ends the run. -/
theorem taken_readRun (run : List Char) (s : σ) (hrun : ∀ c ∈ run, isSpacing c = false) :
    (readRun run s).1.taken ++ written (Reader.left (readRun run s).2.2)
      = run.reverse ++ written (Reader.left s) := by
  fun_induction readRun run s with
  -- the source ends
  | case1 run s s' h =>
    rw [taken_ofRun, (Reader.read_none s s' h).1, (Reader.read_none s s' h).2]
  -- a spacing
  | case2 run s c s' h hc =>
    rw [taken_ofRun, Reader.left_read s c s' h, written_cons_of_isSpacing hc]
    split
    · rw [Reader.left_push, written_cons_of_isSpacing hc]
    · rfl
  -- a minus sign behind a digit
  | case3 run s c s' h _ _ => rw [taken_ofRun, Reader.left_push, Reader.left_read s c s' h]
  -- a dollar sign in front
  | case4 run s c s' h hc _ hdollar =>
    simp only [Bool.and_eq_true, beq_iff_eq, List.isEmpty_iff] at hdollar
    obtain ⟨rfl, rfl⟩ := hdollar
    rw [Reader.left_read s '$' s' h, written_cons (by decide)]
    simp [taken]
  -- the first of two points
  | case5 run s c s' h hc _ _ seen _ hempty _ ih =>
    have hc : isSpacing c = false := by simpa using hc
    rw [ih (by simpa using hc), Reader.left_peekIf, Reader.left_read s c s' h, written_cons hc,
      List.isEmpty_iff.1 hempty]
    rfl
  -- a mark of its own
  | case6 run s c s' h hc _ _ seen _ hempty _ =>
    have hc : isSpacing c = false := by simpa using hc
    rw [taken_ofMark, Reader.left_peekIf, Reader.left_read s c s' h, written_cons hc,
      List.isEmpty_iff.1 hempty]
    rfl
  -- a mark ends the run and is put back
  | case7 run s c s' h _ _ _ seen _ _ =>
    rw [Reader.left_push, Reader.left_peekIf, Reader.left_read s c s' h]
    simp [taken]
  -- the run goes on
  | case8 run s c s' h hc _ _ seen _ ih =>
    have hc : isSpacing c = false := by simpa using hc
    rw [ih (by simpa [hc] using hrun), Reader.left_peekIf, Reader.left_read s c s' h, written_cons hc]
    simp

/-- A token takes the characters that are missing after it. Spacing before it is skipped, and the
break that a blank line gives takes none. -/
theorem taken_next? (minus : Bool) (s : σ) :
    (next? minus s).1.elim [] taken ++ written (Reader.left (next? minus s).2.2)
      = written (Reader.left s) := by
  have hskip := written_left_skipSpacing 0 s
  have hin := exists_left_skipSpacing 0 s
  unfold next?
  revert hskip hin
  generalize skipSpacing 0 s = gap
  obtain ⟨gap, s'⟩ := gap
  intro hskip hin
  cases gap with
  | atEnd => exact hskip
  | blankLine => exact hskip
  | inLine =>
    obtain ⟨c, cs, hleft, hc⟩ := hin rfl
    simp only at hskip hleft ⊢
    rw [← hskip, ← Reader.left_peek s']
    rw [← Reader.left_peek] at hleft
    split
    -- a minus sign by itself
    · split
      · rename_i d s'' hread
        rw [Reader.left_read _ d s'' hread] at hleft ⊢
        cases hleft
        rw [written_cons hc]
        simp [taken]
      · rename_i s'' hread
        rw [(Reader.read_none _ s'' hread).1] at hleft
        cases hleft
    · exact taken_readRun [] _ (by simp)

/-- If there is no next token, nothing is left: skipping went on to the end, since a character that
is no spacing begins a token. -/
theorem left_of_next?_eq_none (minus : Bool) (s : σ) (h : (next? minus s).1 = none) :
    Reader.left (next? minus s).2.2 = [] := by
  have hend := left_skipSpacing_of_atEnd 0 s
  have hin := exists_left_skipSpacing 0 s
  unfold next? at h ⊢
  revert h
  generalize skipSpacing 0 s = gap at hend hin
  obtain ⟨gap, s'⟩ := gap
  cases gap with
  | atEnd => exact fun _ => hend rfl
  | blankLine =>
    intro h
    cases h
  | inLine =>
    -- in the line there is a character, so a token is read
    obtain ⟨c, cs, hleft, _⟩ := hin rfl
    simp only
    split
    · split
      · intro h
        cases h
      · rename_i s'' hread
        rw [← Reader.left_peek, (Reader.read_none _ s'' hread).1] at hleft
        cases hleft
    · intro h
      cases h

/-! ## All tokens -/

/-- If no punctuation is passed over, the next token that is kept is the next one. -/
theorem nextKept?_false (minus : Bool) (s : σ) : nextKept? false minus s = next? minus s := by
  rw [nextKept?]
  split
  · rename_i h
    rw [h]
  · rename_i h
    rw [h]
    rfl

/-- The tokens up to the end take all that is written, and leave nothing. Each of them takes what
stands from where the one before it ended, up to its own end. -/
theorem taken_readAll (minus : Bool) (s : σ) :
    (readAll false minus s).1.flatMap taken = written (Reader.left s)
      ∧ Reader.left (readAll false minus s).2.2 = [] := by
  fun_induction readAll false minus s with
  | case1 minus s minus' s' h =>
    rw [nextKept?_false] at h
    have htaken := taken_next? minus s
    have hleft := left_of_next?_eq_none minus s (by rw [h])
    rw [h] at htaken hleft
    rw [hleft] at htaken
    exact ⟨htaken, hleft⟩
  | case2 minus s t minus' s' h ts minus'' s'' hrest ih =>
    rw [nextKept?_false] at h
    have htaken := taken_next? minus s
    rw [h] at htaken
    rw [hrest] at ih
    rw [List.flatMap_cons, ih.1]
    exact ⟨htaken, ih.2⟩

/-- What is read from a run is no break. -/
theorem kind_readRun (run : List Char) (s : σ) : (readRun run s).1.kind ≠ .paragraph := by
  fun_induction readRun run s with
  | case1 run | case2 run | case3 run => exact kind_ofRun run
  | case4 | case7 =>
    intro hkind
    cases hkind
  | case5 run s c s' _ _ _ _ seen _ _ _ ih => exact ih
  | case6 run s c => exact kind_ofMark c
  | case8 run s c s' _ _ _ _ seen _ ih => exact ih

/-- There is one break only: its text is always the same, whatever blank lines it stands for. -/
theorem eq_paragraphBreak_of_next? {minus : Bool} {s : σ} {t : Token}
    (h : (next? minus s).1 = some t) (hkind : t.kind = .paragraph) : t = paragraphBreak := by
  unfold next? at h
  generalize skipSpacing 0 s = gap at h
  obtain ⟨gap, s'⟩ := gap
  cases gap with
  | atEnd => cases h
  | blankLine =>
    cases h
    rfl
  | inLine =>
    simp only at h
    split at h
    · split at h
      · cases h
        cases hkind
      · cases h
    -- a token that starts in a line is read from characters, and such a token is no break
    · cases h
      exact absurd hkind (kind_readRun _ _)

/-- No token is empty. -/
theorem ne_empty_of_next? {minus : Bool} {s : σ} {t : Token} (h : (next? minus s).1 = some t) :
    t.text ≠ "" := by
  by_cases hkind : t.kind = .paragraph
  · rw [eq_paragraphBreak_of_next? h hkind]
    decide
  · intro hempty
    apply (solid_next? h hkind).1
    rw [hempty]
    rfl

/-- So none of all the tokens is. -/
theorem ne_empty_of_mem_readAll {minus : Bool} {s : σ} {t : Token}
    (h : t ∈ (readAll false minus s).1) : t.text ≠ "" := by
  fun_induction readAll false minus s with
  | case1 => cases h
  | case2 minus s t' minus' s' hnext _ _ _ hrest ih =>
    rw [hrest] at ih
    rcases List.mem_cons.1 h with rfl | h
    · rw [nextKept?_false] at hnext
      exact ne_empty_of_next? (by rw [hnext])
    · exact ih h

/-- There are no more tokens than characters. -/
theorem length_readAll_le (skip minus : Bool) (s : σ) :
    (readAll skip minus s).1.length ≤ (Reader.left s).length := by
  fun_induction readAll skip minus s with
  | case1 => exact Nat.zero_le _
  | case2 minus s t minus' s' hnext _ _ _ hrest ih =>
    have hlt := length_left_nextKept?_lt skip minus s (by simp [hnext])
    rw [hnext] at hlt
    rw [hrest] at ih
    exact Nat.lt_of_le_of_lt ih hlt

/-- Where nothing is left there is no token. -/
theorem next?_of_left_eq_nil {minus : Bool} {s : σ} (h : Reader.left s = []) :
    (next? minus s).1 = none := by
  have hlt := length_left_next?_lt minus s
  rw [h] at hlt
  cases hnext : (next? minus s).1 with
  | none => rfl
  | some t => exact absurd (hlt (by rw [hnext]; rfl)) (by simp)

/-- The texts of all tokens but the breaks, one after the other, are what the tokens take. -/
theorem toList_join_filter (ts : List Token) :
    (String.join ((ts.filter fun t => t.kind != .paragraph).map (·.text))).toList
      = ts.flatMap taken := by
  induction ts with
  | nil => rfl
  | cons t ts ih =>
    rw [String.toList_join] at ih ⊢
    by_cases hkind : t.kind = .paragraph
    · simp [hkind, taken, ih]
    · simp [hkind, taken, ih]

end Token

/-- All tokens of a text, whatever was read of it before: put together they are the text without
spacing, none of them is empty, and they end when the text does. -/
theorem allTokens_conserves (files : Files) (text : String) (left : List Char) (minus : Bool) :
    let o := TextSource.allTokens ⟨.text text.toList left, minus⟩ files false
    ∃ tokens, o.result = .ok tokens
      ∧ String.join ((tokens.filter fun t => t.kind != .paragraph).map (·.text))
        = String.ofList (text.toList.filter fun c => c ∉ [' ', '\t', '\r', '\n'])
      ∧ (∀ t ∈ tokens, t.text ≠ "")
      ∧ tokens.length ≤ text.length
      ∧ (o.state.readWord files false).result = .ok none := by
  intro o
  refine ⟨(Token.readAll false false text.toList).1, rfl, ?_, ?_, ?_, ?_⟩
  · have htaken : _ = Token.written text.toList := (Token.taken_readAll false text.toList).1
    rw [← String.toList_inj, Token.toList_join_filter, String.toList_ofList, htaken]
    refine List.filter_congr fun c _ => ?_
    rw [Bool.eq_iff_iff]
    simp [Token.isSpacing, and_assoc]
  · exact fun t ht => Token.ne_empty_of_mem_readAll ht
  · exact Token.length_readAll_le false false text.toList
  · have hnothing : (Token.readAll false false text.toList).2.2 = [] :=
      (Token.taken_readAll false text.toList).2
    show Except.ok (Token.nextKept? false _ (Token.readAll false false text.toList).2.2).1 = _
    rw [hnothing, Token.nextKept?_false, Token.next?_of_left_eq_nil rfl]

end Utterance
