import Utterance.Token

/-!
# Sources that agree

Tokens are cut from a source by taking, looking at and putting back one character at a time. So if two
sources stand in a relation in which they show the same next character, and which these three operations
keep, the same tokens are cut from both, and they stand in the relation afterwards.

A character is put back only after one has been taken. The relation may therefore be narrower right after
a character has been taken, and putting one back need only lead from the narrow relation to the wide one.
-/

namespace Utterance

/-! ## Agreement -/

/-- A relation between two kinds of sources in which they cannot be told apart: `wide` at all times, and
`narrow` when a character has just been taken. -/
structure Reader.Agree {σ τ : Type} [Reader σ] [Reader τ] (wide narrow : σ → τ → Prop) : Prop where
  wide_of_narrow : ∀ {s t}, narrow s t → wide s t
  read : ∀ {s t}, wide s t →
    (Reader.read s).1 = (Reader.read t).1 ∧ narrow (Reader.read s).2 (Reader.read t).2
  push : ∀ {s t} (c : Char), narrow s t → wide (Reader.push c s) (Reader.push c t)
  peek : ∀ {s t}, wide s t →
    (Reader.peek s).1 = (Reader.peek t).1 ∧ wide (Reader.peek s).2 (Reader.peek t).2
  peek_narrow : ∀ {s t}, narrow s t → narrow (Reader.peek s).2 (Reader.peek t).2

namespace Reader.Agree

variable {σ τ : Type} [Reader σ] [Reader τ] {wide narrow : σ → τ → Prop} {s s' : σ} {t : τ}

/-- At the end of one source the other is at its end as well. -/
theorem read_none (h : Agree wide narrow) (hst : wide s t) (hread : Reader.read s = (none, s')) :
    ∃ t', Reader.read t = (none, t') ∧ narrow s' t' := by
  obtain ⟨heq, hrest⟩ := h.read hst
  rw [hread] at heq hrest
  exact ⟨(Reader.read t).2, Prod.ext heq.symm rfl, hrest⟩

/-- A character of one source is the next of the other. -/
theorem read_some {c : Char} (h : Agree wide narrow) (hst : wide s t)
    (hread : Reader.read s = (some c, s')) : ∃ t', Reader.read t = (some c, t') ∧ narrow s' t' := by
  obtain ⟨heq, hrest⟩ := h.read hst
  rw [hread] at heq hrest
  exact ⟨(Reader.read t).2, Prod.ext heq.symm rfl, hrest⟩

/-- A look ahead, if one is wanted, shows the same in both, and both may be pushed to still. -/
theorem peekIf (h : Agree wide narrow) (wanted : Bool) (hst : narrow s t) :
    (Reader.peekIf wanted s).1 = (Reader.peekIf wanted t).1
      ∧ narrow (Reader.peekIf wanted s).2 (Reader.peekIf wanted t).2 := by
  cases wanted with
  | false => exact ⟨rfl, hst⟩
  | true => exact ⟨(h.peek (h.wide_of_narrow hst)).1, h.peek_narrow hst⟩

/-- A character taken from both sources, with the look at what follows it that a number needs. -/
theorem read_some_peekIf {c : Char} (h : Agree wide narrow) (wanted : Bool) (hst : wide s t)
    (hread : Reader.read s = (some c, s')) :
    ∃ t', Reader.read t = (some c, t')
      ∧ (Reader.peekIf wanted t').1 = (Reader.peekIf wanted s').1
      ∧ narrow (Reader.peekIf wanted s').2 (Reader.peekIf wanted t').2 := by
  obtain ⟨t', hread', hrest⟩ := h.read_some hst hread
  obtain ⟨hahead, hseen⟩ := h.peekIf wanted hrest
  exact ⟨t', hread', hahead.symm, hseen⟩

end Reader.Agree

/-- Two readings with the same result, in sources that stand in a relation afterwards. -/
structure SameReading {σ τ α : Type} (R : σ → τ → Prop) (x : α × Bool × σ) (y : α × Bool × τ) :
    Prop where
  result : x.1 = y.1
  minus : x.2.1 = y.2.1
  rest : R x.2.2 y.2.2

/-- What the second reading is, when the first one is known. -/
theorem SameReading.exists_eq {σ τ α : Type} {R : σ → τ → Prop} {a : α} {minus : Bool} {s : σ}
    {y : α × Bool × τ} (h : SameReading R (a, minus, s) y) : ∃ t, y = (a, minus, t) ∧ R s t :=
  ⟨y.2.2, Prod.ext h.result.symm (Prod.ext h.minus.symm rfl), h.rest⟩

namespace Token

variable {σ τ : Type} [Reader σ] [Reader τ] {wide narrow : σ → τ → Prop}

/-! ## One step -/

section Steps

variable {breaks : Nat} {run : List Char} {s s' : σ} {c : Char}

/-- Spacing is skipped up to the end of the source, if nothing else comes before. -/
theorem skipSpacing_of_none (h : Reader.read s = (none, s')) : skipSpacing breaks s = (.atEnd, s') := by
  rw [skipSpacing]
  split
  · rename_i heq
    rw [h] at heq
    cases heq
    rfl
  · rename_i heq
    rw [h] at heq
    cases heq

/-- Skipping goes on behind a spacing and counts the line ends. It stops at a character of another
kind, which is put back, and two line ends or more before that make it a blank line. -/
theorem skipSpacing_of_some (h : Reader.read s = (some c, s')) :
    skipSpacing breaks s =
      if isSpacing c then skipSpacing (if c = '\n' then breaks + 1 else breaks) s'
      else (if 2 ≤ breaks then .blankLine else .inLine, Reader.push c s') := by
  rw [skipSpacing]
  split
  · rename_i heq
    rw [h] at heq
    cases heq
  · rename_i heq
    rw [h] at heq
    cases heq
    rfl

/-- A run ends with the source. -/
theorem readRun_of_none (h : Reader.read s = (none, s')) : readRun run s = (ofRun run, false, s') := by
  rw [readRun]
  split
  · rename_i heq
    rw [h] at heq
    cases heq
    rfl
  · rename_i heq
    rw [h] at heq
    cases heq

/-- A run goes on by the next character and, where that matters, by the one behind it. This is the
definition without the proofs that its recursion carries, and all that is proved of runs starts
here. -/
theorem readRun_of_some (h : Reader.read s = (some c, s')) :
    readRun run s =
      if isSpacing c then (ofRun run, false, if c = '\n' then Reader.push c s' else s')
      else if c == '-' && run.head?.any Text.isDigit then (ofRun run, true, Reader.push c s')
      else if c == '$' && run.isEmpty then (⟨"$", .word⟩, false, s')
      else
        let seen := Reader.peekIf (isInNumber c) s'
        if endsWord run c seen.1 then
          if run.isEmpty then
            if c == '.' && seen.1 == some '.' then readRun [c] seen.2
            else (ofMark c, false, seen.2)
          else (⟨String.ofList run.reverse, .word⟩, false, Reader.push c seen.2)
        else readRun (c :: run) seen.2 := by
  rw [readRun]
  split
  · rename_i heq
    rw [h] at heq
    cases heq
  · rename_i heq
    rw [h] at heq
    cases heq
    rfl

/-- A character that neither stands between words nor ends a run by itself: what follows it decides
whether the run goes on. -/
theorem readRun_of_plain (h : Reader.read s = (some c, s')) (hspacing : ¬isSpacing c = true)
    (hminus : ¬(c == '-' && run.head?.any Text.isDigit) = true)
    (hdollar : ¬(c == '$' && run.isEmpty) = true) :
    readRun run s =
      if endsWord run c (Reader.peekIf (isInNumber c) s').1 then
        if run.isEmpty then
          if c == '.' && (Reader.peekIf (isInNumber c) s').1 == some '.' then
            readRun [c] (Reader.peekIf (isInNumber c) s').2
          else (ofMark c, false, (Reader.peekIf (isInNumber c) s').2)
        else (⟨String.ofList run.reverse, .word⟩, false,
          Reader.push c (Reader.peekIf (isInNumber c) s').2)
      else readRun (c :: run) (Reader.peekIf (isInNumber c) s').2 := by
  rw [readRun_of_some h, if_neg hspacing, if_neg hminus, if_neg hdollar]

end Steps

/-! ## Readings of sources that agree -/

/-- Sources that agree skip the same. At the end of the skipping a character may have been put back,
and after that they still agree. -/
theorem agree_skipSpacing (h : Reader.Agree wide narrow) (breaks : Nat) {s : σ} {t : τ} (hst : wide s t) :
    (skipSpacing breaks s).1 = (skipSpacing breaks t).1
      ∧ wide (skipSpacing breaks s).2 (skipSpacing breaks t).2 := by
  fun_induction skipSpacing breaks s generalizing t with
  | case1 breaks s s' hread =>
    obtain ⟨t', hread', hrest⟩ := h.read_none hst hread
    rw [skipSpacing_of_none hread']
    exact ⟨rfl, h.wide_of_narrow hrest⟩
  | case2 breaks s c s' hread hc ih =>
    obtain ⟨t', hread', hrest⟩ := h.read_some hst hread
    rw [skipSpacing_of_some hread', if_pos hc]
    exact ih (h.wide_of_narrow hrest)
  | case3 breaks s c s' hread hc =>
    obtain ⟨t', hread', hrest⟩ := h.read_some hst hread
    rw [skipSpacing_of_some hread', if_neg hc]
    exact ⟨rfl, h.push c hrest⟩

/-- Sources that agree read the same token from a run. The recursion is that of the reader; in each
branch at most one character is put back, directly after one was taken, which is when the relation
allows it. -/
theorem agree_readRun (h : Reader.Agree wide narrow) (run : List Char) (s : σ) :
    ∀ {t : τ}, wide s t → SameReading wide (readRun run s) (readRun run t) := by
  fun_induction readRun run s with
  | case1 run s s' hread =>
    intro t hst
    obtain ⟨t', hread', hrest⟩ := h.read_none hst hread
    rw [readRun_of_none hread']
    exact ⟨rfl, rfl, h.wide_of_narrow hrest⟩
  | case2 run s c s' hread hc =>
    intro t hst
    obtain ⟨t', hread', hrest⟩ := h.read_some hst hread
    rw [readRun_of_some hread', if_pos hc]
    refine ⟨rfl, rfl, ?_⟩
    simp only
    split
    · exact h.push c hrest
    · exact h.wide_of_narrow hrest
  | case3 run s c s' hread hc hminus =>
    intro t hst
    obtain ⟨t', hread', hrest⟩ := h.read_some hst hread
    rw [readRun_of_some hread', if_neg hc, if_pos hminus]
    exact ⟨rfl, rfl, h.push c hrest⟩
  | case4 run s c s' hread hc hminus hdollar =>
    intro t hst
    obtain ⟨t', hread', hrest⟩ := h.read_some hst hread
    rw [readRun_of_some hread', if_neg hc, if_neg hminus, if_pos hdollar]
    exact ⟨rfl, rfl, h.wide_of_narrow hrest⟩
  -- in the cases left the look ahead decides, and both sources show the same character there
  | case5 run s c s' hread hc hminus hdollar seen hends hempty hpoints =>
    rename_i ih
    intro t hst
    obtain ⟨t', hread', hahead, hrest⟩ := h.read_some_peekIf (isInNumber c) hst hread
    rw [readRun_of_plain hread' hc hminus hdollar, hahead, if_pos hends, if_pos hempty, if_pos hpoints]
    exact ih (h.wide_of_narrow hrest)
  | case6 run s c s' hread hc hminus hdollar seen hends hempty =>
    rename_i hpoints
    intro t hst
    obtain ⟨t', hread', hahead, hrest⟩ := h.read_some_peekIf (isInNumber c) hst hread
    rw [readRun_of_plain hread' hc hminus hdollar, hahead, if_pos hends, if_pos hempty, if_neg hpoints]
    exact ⟨rfl, rfl, h.wide_of_narrow hrest⟩
  | case7 run s c s' hread hc hminus hdollar seen hends =>
    rename_i hempty
    intro t hst
    obtain ⟨t', hread', hahead, hrest⟩ := h.read_some_peekIf (isInNumber c) hst hread
    rw [readRun_of_plain hread' hc hminus hdollar, hahead, if_pos hends, if_neg hempty]
    exact ⟨rfl, rfl, h.push c hrest⟩
  | case8 run s c s' hread hc hminus hdollar seen hends =>
    rename_i ih
    intro t hst
    obtain ⟨t', hread', hahead, hrest⟩ := h.read_some_peekIf (isInNumber c) hst hread
    rw [readRun_of_plain hread' hc hminus hdollar, hahead, if_neg hends]
    exact ih (h.wide_of_narrow hrest)

/-- Sources that agree have the same next token, and agree afterwards. A step may leave the two of
them less room than before, and spacing gives it back. -/
theorem agree_next? (h : Reader.Agree wide narrow) (minus : Bool) {s : σ} {t : τ} (hst : wide s t) :
    SameReading wide (next? minus s) (next? minus t) := by
  obtain ⟨hgap, hrest⟩ := agree_skipSpacing h 0 hst
  unfold next?
  generalize skipSpacing 0 s = x at hgap hrest
  generalize skipSpacing 0 t = y at hgap hrest
  obtain ⟨gap, s⟩ := x
  obtain ⟨gap', t⟩ := y
  obtain rfl : gap = gap' := hgap
  cases gap with
  -- both sources are skipped as far, and only a gap inside a line is read behind
  | atEnd => exact ⟨rfl, rfl, hrest⟩
  | blankLine => exact ⟨rfl, rfl, hrest⟩
  | inLine =>
    obtain ⟨hseen, hseenRest⟩ := h.peek hrest
    simp only [hseen]
    split
    · obtain ⟨hread, hreadRest⟩ := h.read hseenRest
      generalize Reader.read (Reader.peek s).2 = x at hread hreadRest
      generalize Reader.read (Reader.peek t).2 = y at hread hreadRest
      obtain ⟨c, s⟩ := x
      obtain ⟨c', t⟩ := y
      obtain rfl : c = c' := hread
      cases c with
      | none => exact ⟨rfl, rfl, h.wide_of_narrow hreadRest⟩
      | some c => exact ⟨rfl, rfl, h.wide_of_narrow hreadRest⟩
    -- any other token is read as a run
    · have hrun := agree_readRun h [] _ hseenRest
      exact ⟨congrArg some hrun.result, hrun.minus, hrun.rest⟩

/-- The next token that is kept, unfolded once. -/
theorem nextKept?_eq (skip minus : Bool) (s : σ) :
    nextKept? skip minus s =
      match next? minus s with
      | (none, minus', s') => (none, minus', s')
      | (some t, minus', s') =>
        if skip && t.isPunctuation then nextKept? skip minus' s' else (some t, minus', s') := by
  rw [nextKept?]
  split <;> (rename_i hnext; rw [hnext])

/-- All tokens, unfolded once. -/
theorem readAll_eq (skip minus : Bool) (s : σ) :
    readAll skip minus s =
      match nextKept? skip minus s with
      | (none, minus', s') => ([], minus', s')
      | (some t, minus', s') =>
        (t :: (readAll skip minus' s').1, (readAll skip minus' s').2) := by
  rw [readAll]
  split <;> (rename_i hnext; rw [hnext])

/-- A sentence, unfolded once. -/
theorem readSentence_eq (skip minus : Bool) (s : σ) :
    readSentence skip minus s =
      match nextKept? skip minus s with
      | (none, minus', s') => ([], minus', s')
      | (some t, minus', s') =>
        if t.kind = .paragraph then ([], minus', s')
        else (t :: (readSentence skip minus' s').1, (readSentence skip minus' s').2) := by
  rw [readSentence]
  split <;> (rename_i hnext; rw [hnext])

/-- Sources that agree have the same next token that is kept, and agree afterwards. -/
theorem agree_nextKept? (h : Reader.Agree wide narrow) (skip minus : Bool) (s : σ) :
    ∀ {t : τ}, wide s t → SameReading wide (nextKept? skip minus s) (nextKept? skip minus t) := by
  fun_induction nextKept? skip minus s with
  | case1 minus s minus' s' hnext =>
    intro t hst
    obtain ⟨t', hnext', hrest⟩ := (hnext ▸ agree_next? h minus hst).exists_eq
    rw [nextKept?_eq skip minus t, hnext']
    exact ⟨rfl, rfl, hrest⟩
  -- the token is skipped in both, so both go on
  | case2 minus s token minus' s' hnext hskip ih =>
    intro t hst
    obtain ⟨t', hnext', hrest⟩ := (hnext ▸ agree_next? h minus hst).exists_eq
    rw [nextKept?_eq skip minus t, hnext']
    simp only [hskip, if_true]
    exact ih hrest
  | case3 minus s token minus' s' hnext hskip =>
    intro t hst
    obtain ⟨t', hnext', hrest⟩ := (hnext ▸ agree_next? h minus hst).exists_eq
    rw [nextKept?_eq skip minus t, hnext']
    simp only [hskip, Bool.false_eq_true, if_false]
    exact ⟨rfl, rfl, hrest⟩

/-- Sources that agree have the same tokens, down to the last. -/
theorem agree_readAll (h : Reader.Agree wide narrow) (skip minus : Bool) (s : σ) :
    ∀ {t : τ}, wide s t → SameReading wide (readAll skip minus s) (readAll skip minus t) := by
  fun_induction readAll skip minus s with
  | case1 minus s minus' s' hnext =>
    intro t hst
    obtain ⟨t', hnext', hrest⟩ := (hnext ▸ agree_nextKept? h skip minus s hst).exists_eq
    rw [readAll_eq skip minus t, hnext']
    exact ⟨rfl, rfl, hrest⟩
  | case2 minus s token minus' s' hnext ts minus'' s'' hall ih =>
    intro t hst
    obtain ⟨t', hnext', hrest⟩ := (hnext ▸ agree_nextKept? h skip minus s hst).exists_eq
    obtain ⟨t'', hall', hrest⟩ := (hall ▸ ih hrest).exists_eq
    rw [readAll_eq skip minus t, hnext']
    simp only [hall']
    exact ⟨rfl, rfl, hrest⟩

/-- Sources that agree have the same sentence, and agree afterwards. The induction is along the
reading of the first of them. -/
theorem agree_readSentence (h : Reader.Agree wide narrow) (skip minus : Bool) (s : σ) :
    ∀ {t : τ}, wide s t → SameReading wide (readSentence skip minus s) (readSentence skip minus t) := by
  fun_induction readSentence skip minus s with
  | case1 minus s minus' s' hnext =>
    intro t hst
    obtain ⟨t', hnext', hrest⟩ := (hnext ▸ agree_nextKept? h skip minus s hst).exists_eq
    rw [readSentence_eq skip minus t, hnext']
    exact ⟨rfl, rfl, hrest⟩
  | case2 minus s token minus' s' hnext hkind =>
    intro t hst
    obtain ⟨t', hnext', hrest⟩ := (hnext ▸ agree_nextKept? h skip minus s hst).exists_eq
    rw [readSentence_eq skip minus t, hnext']
    simp only [hkind, if_true]
    exact ⟨rfl, rfl, hrest⟩
  | case3 minus s token minus' s' hnext hkind ts minus'' s'' hall ih =>
    intro t hst
    obtain ⟨t', hnext', hrest⟩ := (hnext ▸ agree_nextKept? h skip minus s hst).exists_eq
    obtain ⟨t'', hall', hrest⟩ := (hall ▸ ih hrest).exists_eq
    rw [readSentence_eq skip minus t, hnext']
    simp only [hkind, if_false, hall']
    exact ⟨rfl, rfl, hrest⟩

end Token

/-- A way of reading that works over every kind of source, and cannot tell those apart that agree. -/
structure Reading (α : Type) where
  run : {σ : Type} → [Reader σ] → Bool → σ → α × Bool × σ
  agree : ∀ {σ τ : Type} [Reader σ] [Reader τ] {wide narrow : σ → τ → Prop},
    Reader.Agree wide narrow → ∀ (minus : Bool) {s : σ} {t : τ}, wide s t →
      SameReading wide (run minus s) (run minus t)

namespace Reading

/-- Reads one token. -/
def word (skip : Bool) : Reading (Option Token) :=
  ⟨Token.nextKept? skip, fun h minus s _ hst => Token.agree_nextKept? h skip minus s hst⟩

/-- Reads up to the end. -/
def all (skip : Bool) : Reading (List Token) :=
  ⟨Token.readAll skip, fun h minus s _ hst => Token.agree_readAll h skip minus s hst⟩

/-- Reads up to a paragraph break. -/
def sentence (skip : Bool) : Reading (List Token) :=
  ⟨Token.readSentence skip, fun h minus s _ hst => Token.agree_readSentence h skip minus s hst⟩

end Reading

end Utterance
