import Utterance.Text.Casing
import Utterance.Text.Numeric

/-!
# Tokens

Cutting a sentence into words, sentence ends, soft delimiters and paragraph breaks. Decimal numbers,
initials and a closed set of abbreviations keep their points.

The cutter reads one character at a time and needs to look one character ahead and to put one back.
It works over any `Reader`, a kind of source with these three operations; what it sees of a source is
only the list of the characters that remain.
-/

namespace Utterance

/-! ## Kinds of tokens -/

/-- What a token is, as far as sentence structure goes. -/
inductive TokenKind where
  | word
  /-- A mark that ends a sentence. -/
  | ending
  /-- A comma, bracket, quote or other soft delimiter, or an ellipsis. -/
  | delimiter
  | paragraph
  deriving DecidableEq, Repr

/-- Name of a kind of token. -/
def TokenKind.name : TokenKind → String
  | .word => "word"
  | .ending => "end"
  | .delimiter => "delim"
  | .paragraph => "paragraph"

/-- A piece of a sentence. -/
structure Token where
  text : String
  kind : TokenKind
  deriving DecidableEq, Repr

namespace Token

/-- Whether a token is a word. -/
def isWord (t : Token) : Bool := t.kind == .word

/-- Whether a token is a sentence end or a delimiter. -/
def isPunctuation (t : Token) : Bool := t.kind == .ending || t.kind == .delimiter

/-- The token that stands for one or more blank lines. -/
def paragraphBreak : Token := ⟨"\n", .paragraph⟩

/-! ## Classes of characters -/

/-- The punctuation marks. -/
def marks : List Char :=
  [',', ';', ':', '.', '!', '?', '(', ')', '[', ']', '\x7b', '\x7d', '"', '=', '/', '<', '>', '%', '+']

/-- A punctuation mark. -/
def isMark (c : Char) : Bool := marks.contains c

/-- A mark that ends a sentence. -/
def isEnding (c : Char) : Bool := c == '.' || c == '!' || c == '?'

/-- A character between tokens. -/
def isSpacing (c : Char) : Bool := c == ' ' || c == '\t' || c == '\r' || c == '\n'

/-- Whether a text is a single punctuation mark. -/
def isMarkText (s : String) : Bool :=
  match s.toList with
  | [c] => isMark c
  | _ => false

/-- The words that keep a point at their end: titles, references and the ellipsis. -/
def abbreviations : List String :=
  ["mr.", "mrs.", "ms.", "dr.", "fig.", "figs.", "ex.", "eq.", "eqn.", "tab.", "i.e.", "e.g.",
    "ie.", "eg.", "cf.", "al.", "cont.", "..", "..."]

/-! ## Sources of characters -/

end Token

/-- A source of characters with one of lookahead. All that matters of its state is which characters
are left. -/
class Reader (σ : Type) where
  /-- The characters that are left. -/
  left : σ → List Char
  /-- Takes the next character. -/
  read : σ → Option Char × σ
  /-- Puts a character back in front. -/
  push : Char → σ → σ
  /-- Shows the next character without taking it. -/
  peek : σ → Option Char × σ
  read_none : ∀ s s', read s = (none, s') → left s = [] ∧ left s' = []
  left_read : ∀ s c s', read s = (some c, s') → left s = c :: left s'
  left_push : ∀ c s, left (push c s) = c :: left s
  peek_fst : ∀ s, (peek s).1 = (left s).head?
  left_peek : ∀ s, left (peek s).2 = left s

/-- A list of characters is read from its front. -/
instance : Reader (List Char) where
  left := id
  read
    | [] => (none, [])
    | c :: cs => (some c, cs)
  push := List.cons
  peek cs := (cs.head?, cs)
  read_none s s' h := by cases s <;> simp_all
  left_read s c s' h := by
    cases s with
    | nil => simp at h
    | cons d ds => simp only [Option.some.injEq, Prod.mk.injEq] at h; simp [h.1, h.2]
  left_push _ _ := rfl
  peek_fst _ := rfl
  left_peek _ := rfl

/-- Looks at the next character only if it is wanted: a file is not read further than it has to
be. -/
def Reader.peekIf {σ : Type} [Reader σ] (wanted : Bool) (s : σ) : Option Char × σ :=
  if wanted then Reader.peek s else (none, s)

theorem Reader.left_peekIf {σ : Type} [Reader σ] (wanted : Bool) (s : σ) :
    Reader.left (Reader.peekIf wanted s).2 = Reader.left s := by
  cases wanted <;> simp [Reader.peekIf, Reader.left_peek]

namespace Token

/-! ## Gaps between tokens -/

/-- What lies before the next token. -/
inductive Gap where
  /-- Nothing but spacing is left. -/
  | atEnd
  /-- At least one blank line. -/
  | blankLine
  | inLine
  deriving DecidableEq, Repr

/-- Skips spacing, of which `breaks` line ends have been seen, up to the next token. -/
def skipSpacing {σ : Type} [Reader σ] (breaks : Nat) (s : σ) : Gap × σ :=
  match _h : Reader.read s with
  | (none, s') => (.atEnd, s')
  | (some c, s') =>
    if isSpacing c then skipSpacing (if c = '\n' then breaks + 1 else breaks) s'
    else (if 2 ≤ breaks then .blankLine else .inLine, Reader.push c s')
termination_by (Reader.left s).length
decreasing_by simp [Reader.left_read s c s' _h]

/-! ## Words -/

/-- A mark that may stand inside a number, so that the character after it matters. -/
def isInNumber (c : Char) : Bool := c == ',' || c == '.'

/-- Whether the last character `c` of a token ends it as punctuation. `before` are the characters
before `c`, the last one first, and `ahead` is the character that follows. -/
def endsWord (before : List Char) (c : Char) (ahead : Option Char) : Bool :=
  if !isMark c then false
  -- a mark inside a number, as in 3.14 or 1,000
  else if isInNumber c && ahead.any Text.isDigit then false
  -- an initial
  else if c == '.' && before.length == 1 && before.head?.any Text.isAlpha then false
  else if c == '.' && abbreviations.contains (Text.lower (String.ofList (c :: before).reverse))
  then false
  else true

/-- The token that the characters `run`, the last one first, make when the word is over. -/
def ofRun (run : List Char) : Token :=
  let text := String.ofList run.reverse
  ⟨text, if text = ".." || text = "..." then .delimiter else .word⟩

/-- The token that a punctuation mark makes by itself. -/
def ofMark (c : Char) : Token :=
  ⟨String.singleton c, if isEnding c then .ending else .delimiter⟩

/-- Reads on with a token of which the characters `run`, the last one first, have been read. Also
tells whether the token was cut off before a minus sign. -/
def readRun {σ : Type} [Reader σ] (run : List Char) (s : σ) : Token × Bool × σ :=
  match _h : Reader.read s with
  | (none, s') => (ofRun run, false, s')
  | (some c, s') =>
    -- a line end is put back, since the gap that follows counts it
    if isSpacing c then (ofRun run, false, if c = '\n' then Reader.push c s' else s')
    -- a minus sign after a digit is a word of its own
    else if c == '-' && run.head?.any Text.isDigit then (ofRun run, true, Reader.push c s')
    else if c == '$' && run.isEmpty then (⟨"$", .word⟩, false, s')
    else
      let seen := Reader.peekIf (isInNumber c) s'
      if endsWord run c seen.1 then
        if run.isEmpty then
          -- two points may be the start of an ellipsis
          if c == '.' && seen.1 == some '.' then readRun [c] seen.2
          else (ofMark c, false, seen.2)
        else (⟨String.ofList run.reverse, .word⟩, false, Reader.push c seen.2)
      else readRun (c :: run) seen.2
termination_by (Reader.left s).length
decreasing_by all_goals simp [Reader.left_read s c s' _h, Reader.left_peekIf]

/-- The next token of a source, with the source after it and whether a minus sign that belongs to no
number comes next. `minus` tells that of the source before. -/
def next? {σ : Type} [Reader σ] (minus : Bool) (s : σ) : Option Token × Bool × σ :=
  match skipSpacing 0 s with
  | (.atEnd, s) => (none, minus, s)
  | (.blankLine, s) => (some paragraphBreak, minus, s)
  | (.inLine, s) =>
    let seen := Reader.peek s
    -- only the minus sign that cut the last token off is split from what follows it
    if minus && seen.1 == some '-' then
      match Reader.read seen.2 with
      | (some c, s) => (some ⟨String.singleton c, .word⟩, false, s)
      | (none, s) => (none, false, s)
    else
      let (t, minus, s) := readRun [] seen.2
      (some t, minus, s)

/-! ## Every token takes characters -/

variable {σ : Type} [Reader σ]

/-- Skipping spacing leaves no more than there was. -/
theorem length_left_skipSpacing_le (breaks : Nat) (s : σ) :
    (Reader.left (skipSpacing breaks s).2).length ≤ (Reader.left s).length := by
  fun_induction skipSpacing breaks s with
  | case1 breaks s s' h => simp [Reader.read_none s s' h]
  | case2 breaks s c s' h hc ih => exact Nat.le_trans ih (by simp [Reader.left_read s c s' h])
  | case3 breaks s c s' h hc => simp [Reader.left_read s c s' h, Reader.left_push]

/-- A gap that counts more blank lines than it started with has taken a line end. -/
theorem length_left_skipSpacing_lt (breaks : Nat) (s : σ) (hb : breaks < 2)
    (h : (skipSpacing breaks s).1 = .blankLine) :
    (Reader.left (skipSpacing breaks s).2).length < (Reader.left s).length := by
  fun_induction skipSpacing breaks s with
  | case1 => simp at h
  | case2 breaks s c s' hr hc ih =>
    refine Nat.lt_of_le_of_lt (length_left_skipSpacing_le _ s') ?_
    simp [Reader.left_read s c s' hr]
  | case3 breaks s c s' hr hc => simp at h; omega

/-- What follows a gap inside a line starts with a character that is no spacing. -/
theorem exists_left_skipSpacing (breaks : Nat) (s : σ) (h : (skipSpacing breaks s).1 = .inLine) :
    ∃ c cs, Reader.left (skipSpacing breaks s).2 = c :: cs ∧ isSpacing c = false := by
  fun_induction skipSpacing breaks s with
  | case1 => simp at h
  | case2 breaks s c s' hr hc ih => exact ih h
  | case3 breaks s c s' hr hc => exact ⟨c, Reader.left s', by simp [Reader.left_push], by simpa using hc⟩

/-- Reading on with a token leaves no more than there was. A character may be put back, but only one
that was read before. -/
theorem length_left_readRun_le (run : List Char) (s : σ) :
    (Reader.left (readRun run s).2.2).length ≤ (Reader.left s).length := by
  fun_induction readRun run s with
  | case1 run s s' h => simp [Reader.read_none s s' h]
  | case2 run s c s' h hc =>
    split <;> simp [Reader.left_read s c s' h, Reader.left_push]
  | case3 run s c s' h _ _ => simp [Reader.left_read s c s' h, Reader.left_push]
  | case4 run s c s' h _ _ _ => simp [Reader.left_read s c s' h]
  | case5 run s c s' h _ _ _ seen _ _ _ ih =>
    exact Nat.le_trans ih (by simp [seen, Reader.left_read s c s' h, Reader.left_peekIf])
  | case6 run s c s' h _ _ _ seen _ _ _ =>
    simp [seen, Reader.left_read s c s' h, Reader.left_peekIf]
  | case7 run s c s' h _ _ _ seen _ _ =>
    simp [seen, Reader.left_read s c s' h, Reader.left_push, Reader.left_peekIf]
  | case8 run s c s' h _ _ _ seen _ ih =>
    exact Nat.le_trans ih (by simp [seen, Reader.left_read s c s' h, Reader.left_peekIf])

/-- A token that starts with a character other than spacing takes it. It may be followed by one that
is looked at and left, but it is not put back itself. -/
theorem length_left_readRun_lt (s : σ) {c : Char} {cs : List Char} (hs : Reader.left s = c :: cs)
    (hc : isSpacing c = false) :
    (Reader.left (readRun [] s).2.2).length < (Reader.left s).length := by
  rw [readRun]
  split
  · rename_i s' h
    simp [Reader.read_none s s' h] at hs
  · rename_i d s' h
    have hd := Reader.left_read s d s' h
    have hdc : d = c := by rw [hs] at hd; simpa using (List.cons.inj hd).1.symm
    subst hdc
    -- whatever comes behind the first character, nothing in front of it is left
    have hrun (run : List Char) :
        (Reader.left (readRun run (Reader.peekIf (isInNumber d) s').2).2.2).length
          ≤ (Reader.left s').length := by
      have := length_left_readRun_le run (Reader.peekIf (isInNumber d) s').2
      rwa [Reader.left_peekIf] at this
    simp only [hc, hd, List.length_cons, List.head?_nil, Option.any_none, Bool.and_false,
      Bool.false_eq_true, if_false, List.isEmpty_nil, Bool.and_true, if_true]
    split
    · simp
    · split
      · split
        · exact Nat.lt_succ_of_le (hrun [d])
        · simp [Reader.left_peekIf]
      · exact Nat.lt_succ_of_le (hrun [d])

/-- Every token takes at least one character from its source. This is what lets the tokens of a
source be read one after the other to its end. -/
theorem length_left_next?_lt (minus : Bool) (s : σ) (h : (next? minus s).1.isSome) :
    (Reader.left (next? minus s).2.2).length < (Reader.left s).length := by
  have hle := length_left_skipSpacing_le 0 s
  have hlt := length_left_skipSpacing_lt 0 s (by omega)
  have hin := exists_left_skipSpacing 0 s
  unfold next? at h ⊢
  revert h
  generalize skipSpacing 0 s = gap at hle hlt hin ⊢
  obtain ⟨g, s1⟩ := gap
  cases g with
  | atEnd => simp
  -- a break takes the line ends, of which there are two at least
  | blankLine => simpa using hlt
  | inLine =>
    obtain ⟨c, cs, hleft, hc⟩ := hin rfl
    simp only at hleft hle ⊢
    -- behind a minus sign the number was cut off, and the sign is taken now; any other token takes
    -- the character that it starts with
    split
    · split
      · rename_i d s2 hr
        have := Reader.left_read _ d s2 hr
        rw [Reader.left_peek] at this
        intro _
        simp only
        rw [this, List.length_cons] at hle
        exact hle
      · simp
    · intro _
      have hp : Reader.left (Reader.peek s1).2 = c :: cs := by rw [Reader.left_peek, hleft]
      have := length_left_readRun_lt (Reader.peek s1).2 hp hc
      rw [hp, ← hleft] at this
      exact Nat.lt_of_lt_of_le this hle

/-! ## Sequences of tokens -/

/-- The next token, passing over punctuation if `skip` is set. -/
def nextKept? (skip minus : Bool) (s : σ) : Option Token × Bool × σ :=
  match _h : next? minus s with
  | (none, minus', s') => (none, minus', s')
  | (some t, minus', s') =>
    if skip && t.isPunctuation then nextKept? skip minus' s' else (some t, minus', s')
termination_by (Reader.left s).length
decreasing_by
  have := length_left_next?_lt minus s (by simp [_h])
  simpa [_h] using this

/-- A kept token takes at least one character, too. -/
theorem length_left_nextKept?_lt (skip minus : Bool) (s : σ)
    (hsome : (nextKept? skip minus s).1.isSome) :
    (Reader.left (nextKept? skip minus s).2.2).length < (Reader.left s).length := by
  fun_induction nextKept? skip minus s with
  | case1 => simp at hsome
  | case2 minus s t minus' s' h hc ih =>
    have := length_left_next?_lt minus s (by simp [h])
    simp [h] at this
    exact Nat.lt_trans (ih hsome) this
  | case3 minus s t minus' s' h hc =>
    have := length_left_next?_lt minus s (by simp [h])
    simpa [h] using this

/-- All tokens up to the end. -/
def readAll (skip minus : Bool) (s : σ) : List Token × Bool × σ :=
  match _h : nextKept? skip minus s with
  | (none, minus', s') => ([], minus', s')
  | (some t, minus', s') =>
    let (ts, minus', s') := readAll skip minus' s'
    (t :: ts, minus', s')
termination_by (Reader.left s).length
decreasing_by
  have := length_left_nextKept?_lt skip minus s (by simp [_h])
  simpa [_h] using this

/-- The tokens of a sentence: those before the next paragraph break, which is taken too. -/
def readSentence (skip minus : Bool) (s : σ) : List Token × Bool × σ :=
  match _h : nextKept? skip minus s with
  | (none, minus', s') => ([], minus', s')
  | (some t, minus', s') =>
    if t.kind = .paragraph then ([], minus', s')
    else
      let (ts, minus', s') := readSentence skip minus' s'
      (t :: ts, minus', s')
termination_by (Reader.left s).length
decreasing_by
  have := length_left_nextKept?_lt skip minus s (by simp [_h])
  simpa [_h] using this

end Token

/-! ## Texts -/

/-- All tokens of a text, paragraph breaks included. -/
def tokensOf (skip : Bool) (text : String) : List Token :=
  (Token.readAll skip false text.toList).1

/-- The token texts of a single sentence. -/
def tokenize (skip : Bool) (text : String) : List String :=
  (Token.readSentence skip false text.toList).1.map (·.text)

end Utterance
