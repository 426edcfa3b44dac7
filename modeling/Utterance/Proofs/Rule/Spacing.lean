import Mathlib.Data.List.Basic
import Utterance.Proofs.Rule.Sugar
import Utterance.Proofs.Text.Words

/-!
# Blanks around signs

A line falls into pieces: its words, and the parentheses, stars and plus signs between them. A blank
beside one of these makes no difference to the pieces. A question mark is different: it is a part of the
word that it stands in. Only around one that stands apart do blanks make no difference either.
-/

namespace Utterance

namespace Sugar

variable {line line' before after before' after' : List Char} {c : Char}

/-! ## Pieces -/

/-- A line with a blank before and after each character that satisfies `p`. -/
def spaced (p : Char → Bool) (line : List Char) : List Char :=
  line.flatMap fun c => if p c then [' ', c, ' '] else [c]

/-- A sign that ends the word before it by itself: each of them but the question mark. -/
def isMark (c : Char) : Bool := c == '(' || c == ')' || c == '+' || c == '*'

/-- The words of a line, with the marks between them as words of their own. -/
def pieces (line : List Char) : List (List Char) := Text.wordRuns [] (spaced isMark line)

/-- A mark is no blank. -/
theorem isBlank_of_isMark (h : isMark c = true) : Text.isBlank c = false := by
  simp only [isMark, Bool.or_eq_true, beq_iff_eq] at h
  rcases h with ((rfl | rfl) | rfl) | rfl <;> decide

/-- Nor is a blank a mark. -/
theorem isMark_of_isBlank (h : Text.isBlank c = true) : isMark c = false := by
  rw [Bool.eq_false_iff]
  intro hmark
  rw [isBlank_of_isMark hmark] at h
  cases h

/-- Spaces are put around marks one by one, so a line may be spaced in parts. -/
theorem spaced_append_cons (p : Char → Bool) (before after : List Char) (c : Char) :
    spaced p (before ++ c :: after)
      = spaced p before ++ ((if p c then [' ', c, ' '] else [c]) ++ spaced p after) := by
  simp [spaced]

/-- A line falls into pieces at a blank. -/
theorem pieces_append_blank (hc : Text.isBlank c = true) (before after : List Char) :
    pieces (before ++ c :: after) = pieces before ++ pieces after := by
  rw [pieces, spaced_append_cons, isMark_of_isBlank hc]
  exact Text.wordRuns_append_blank hc [] _ _

/-- It falls into pieces at a mark as well, which is a piece itself. -/
theorem pieces_append_mark (hc : isMark c = true) (before after : List Char) :
    pieces (before ++ c :: after) = pieces before ++ [c] :: pieces after := by
  have hspace : Text.isBlank ' ' = true := by decide
  have hword : Text.wordRuns [] [c] = [[c]] :=
    Text.wordRuns_of_forall (by simpa using isBlank_of_isMark hc) (by simp)
  have hafter := Text.wordRuns_append_blank hspace [] [c] (spaced isMark after)
  rw [hword] at hafter
  rw [pieces, spaced_append_cons, hc, if_pos rfl]
  exact (Text.wordRuns_append_blank hspace [] _ _).trans (congrArg _ hafter)

/-- Without marks the pieces of a line are its words. -/
theorem pieces_eq_wordRuns (h : ∀ c ∈ line, isMark c = false) :
    pieces line = Text.wordRuns [] line := by
  have hspaced : spaced isMark line = line := by
    rw [spaced, List.flatMap_congr (g := fun c => [c]) fun c hc => by rw [h c hc]; rfl]
    simp
  rw [pieces, hspaced]

/-- A mark is a piece only of lines in which it stands. -/
theorem mem_of_singleton_mem_pieces (hc : Text.isBlank c = false) (h : [c] ∈ pieces line) :
    c ∈ line := by
  have hmem := (Text.mem_of_mem_wordRuns h (List.mem_singleton.2 rfl)).resolve_left List.not_mem_nil
  obtain ⟨d, hd, hcd⟩ := List.mem_flatMap.1 hmem
  split at hcd
  · simp only [List.mem_cons, List.not_mem_nil, or_false] at hcd
    -- a mark is spaced by a blank on either side, and this character is no blank
    rcases hcd with rfl | rfl | rfl
    · cases hc
    · exact hd
    · cases hc
  · rw [List.mem_singleton.1 hcd]
    exact hd

/-- Cutting a text at blanks keeps its signs: those of the run before it, and then those of its
words. No sign has a blank in it. -/
theorem signs_eq_flatMap_wordRuns (run cs : List Char) :
    signs (run.reverse ++ cs) = (Text.wordRuns run cs).flatMap signs := by
  induction cs generalizing run with
  | nil =>
    rw [Text.wordRuns]
    cases run with
    | nil => rfl
    | cons c run => simp
  | cons c cs ih =>
    rw [Text.wordRuns]
    split
    · rename_i hc
      have ih : signs cs = _ := ih []
      rw [signs_append_blank hc, ih]
      cases run with
      | nil => rfl
      | cons d run => simp
    · rw [← ih, List.reverse_cons, List.append_assoc, List.singleton_append]

theorem exists_sign?_of_isMark (hc : isMark c = true) : ∃ s, sign? c = some s := by
  simp only [isMark, Bool.or_eq_true, beq_iff_eq] at hc
  rcases hc with ((rfl | rfl) | rfl) | rfl <;> exact ⟨_, rfl⟩

/-- Blanks around marks keep the signs. A mark is a sign of its own, whatever stands next to it. -/
theorem signs_append_spaced (before line : List Char) :
    signs (before ++ spaced isMark line) = signs (before ++ line) := by
  induction line generalizing before with
  | nil => rfl
  | cons c cs ih =>
    have hcons : spaced isMark (c :: cs)
        = (if isMark c then [' ', c, ' '] else [c]) ++ spaced isMark cs := rfl
    rw [hcons]
    split
    · rename_i hc
      have hspace : Text.isBlank ' ' = true := by decide
      obtain ⟨s, hs⟩ := exists_sign?_of_isMark hc
      have hrest : signs (c :: ' ' :: spaced isMark cs) = s :: signs cs := by
        have hcut := signs_append_sign hs [] (' ' :: spaced isMark cs)
        have hblank := signs_append_blank hspace [] (spaced isMark cs)
        rw [List.nil_append] at hcut hblank
        rw [hcut, hblank]
        exact congrArg (s :: ·) (ih [])
      rw [signs_append_sign hs, ← hrest]
      exact signs_append_blank hspace before _
    -- any other character joins what stands before
    · have ih := ih (before ++ [c])
      simpa using ih

/-- The signs of a line are those of its pieces. -/
theorem signs_eq_flatMap_pieces (line : List Char) : signs line = (pieces line).flatMap signs := by
  rw [pieces, ← signs_eq_flatMap_wordRuns]
  exact (signs_append_spaced [] line).symm

/-! ## Lines of the same pieces -/

/-- Lines of the same pieces nest alike. -/
theorem isNested_of_pieces_eq (h : pieces line' = pieces line) (hnested : isNested line = true) :
    isNested line' = true := by
  apply isNested_of_nested
  rw [signs_eq_flatMap_pieces, h, ← signs_eq_flatMap_pieces]
  exact nested_of_isNested hnested

/-- The first element that satisfies `p` cuts a list in one way only, so both parts and the element
are the same. -/
theorem append_cons_inj_of_first {α : Type} {p : α → Prop} {xs xs' ys ys' : List α} {a a' : α}
    (hxs : ∀ x ∈ xs, ¬p x) (ha : p a) (hxs' : ∀ x ∈ xs', ¬p x) (ha' : p a')
    (h : xs ++ a :: ys = xs' ++ a' :: ys') : xs = xs' ∧ a = a' ∧ ys = ys' := by
  induction xs generalizing xs' with
  | nil =>
    cases xs' with
    | nil =>
      cases h
      exact ⟨rfl, rfl, rfl⟩
    | cons b xs' =>
      cases h
      exact absurd ha (hxs' _ (List.mem_cons_self ..))
  | cons b xs ih =>
    cases xs' with
    | nil =>
      cases h
      exact absurd ha' (hxs _ (List.mem_cons_self ..))
    | cons b' xs' =>
      rw [List.cons_append, List.cons_append, List.cons.injEq] at h
      obtain ⟨rfl, h⟩ := h
      obtain ⟨rfl, rest⟩ := ih (List.forall_mem_cons.1 hxs).2 (List.forall_mem_cons.1 hxs').2 h
      exact ⟨rfl, rest⟩

/-- The first mark of its kind cuts lines of the same pieces into parts of the same pieces. What
stands before it has no such mark in either line, so the two cuts are at the same piece. -/
theorem exists_cutAt_of_pieces_eq (hc : isMark c = true) (h : pieces line' = pieces line)
    (hcut : Text.cutAt c line = (before, some after)) :
    ∃ before' after', Text.cutAt c line' = (before', some after')
      ∧ pieces before' = pieces before ∧ pieces after' = pieces after := by
  have hblank := isBlank_of_isMark hc
  have hpieces : ∀ {cs before after : List Char}, Text.cutAt c cs = (before, some after) →
      pieces cs = pieces before ++ [c] :: pieces after ∧ ∀ piece ∈ pieces before, ¬piece = [c] := by
    intro cs before after hcut
    have hfirst := not_mem_cutAt c cs
    rw [hcut] at hfirst
    rw [eq_of_cutAt hcut, pieces_append_mark hc]
    refine ⟨rfl, ?_⟩
    rintro _ hmem rfl
    exact hfirst (mem_of_singleton_mem_pieces hblank hmem)
  obtain ⟨heq, hfirst⟩ := hpieces hcut
  cases hcut' : Text.cutAt c line' with
  | mk before' rest' =>
    cases rest' with
    | none =>
      -- the mark is a piece of the one line, so it stands in the other as well
      have hmem : [c] ∈ pieces line' := by
        rw [h, heq]
        exact List.mem_append_right _ (List.mem_cons_self ..)
      exact absurd (mem_of_singleton_mem_pieces hblank hmem) (not_mem_of_cutAt_none hcut')
    | some after' =>
      obtain ⟨heq', hfirst'⟩ := hpieces hcut'
      rw [heq, heq'] at h
      obtain ⟨hbefore, _, hafter⟩ := append_cons_inj_of_first hfirst' rfl hfirst rfl h
      exact ⟨before', after', rfl, hbefore, hafter⟩

/-- A text that nests does not go on after another one with a closing parenthesis, which would have no
counterpart. -/
theorem Nested.pieces_ne {inside inside' : List Char} {more : List (List Char)}
    (hinside : Nested (signs inside)) (hinside' : Nested (signs inside')) :
    pieces inside' ≠ pieces inside ++ [')'] :: more := by
  intro heq
  have hsigns : signs inside' = signs inside ++ .closes :: more.flatMap signs := by
    rw [signs_eq_flatMap_pieces inside', heq, List.flatMap_append, ← signs_eq_flatMap_pieces]
    rfl
  have hrow : signs inside' ++ .closes :: []
      = signs inside ++ .closes :: (more.flatMap signs ++ [.closes]) := by
    rw [hsigns]
    simp
  have hends := hinside'.closes_unique hinside hrow
  simp [hends.1] at hsigns

/-- Groups of the same pieces are closed at the same place. Depth is counted in marks, which are
pieces of their own, so the blanks around them make no difference. -/
theorem pieces_closeGroup (h : pieces after' = pieces after)
    (hnested : nestedFrom 1 after = true) (hnested' : nestedFrom 1 after' = true) :
    pieces (closeGroup 0 after').1 = pieces (closeGroup 0 after).1
      ∧ pieces (closeGroup 0 after').2 = pieces (closeGroup 0 after).2 := by
  obtain ⟨hafter, hinside, _⟩ := closeGroup_spec 0 hnested
  obtain ⟨hafter', hinside', _⟩ := closeGroup_spec 0 hnested'
  generalize closeGroup 0 after = group at hafter hinside
  generalize closeGroup 0 after' = group' at hafter' hinside'
  obtain ⟨inside, rest⟩ := group
  obtain ⟨inside', rest'⟩ := group'
  simp only at hafter hafter' hinside hinside' ⊢
  have hmark : isMark ')' = true := by decide
  rw [hafter, hafter', pieces_append_mark hmark, pieces_append_mark hmark] at h
  have hinside := nested_of_isNested hinside
  have hinside' := nested_of_isNested hinside'
  -- if one group were longer, the other would end inside it at a parenthesis without a counterpart
  rcases List.append_eq_append_iff.1 h with ⟨more, hmore, htail⟩ | ⟨more, hmore, htail⟩
  · cases more with
    | nil =>
      rw [List.append_nil] at hmore
      exact ⟨hmore.symm, (List.cons.inj htail).2⟩
    | cons piece more =>
      rw [List.cons_append, List.cons.injEq] at htail
      obtain ⟨rfl, _⟩ := htail
      exact absurd hmore (hinside'.pieces_ne hinside)
  · cases more with
    | nil =>
      rw [List.append_nil] at hmore
      exact ⟨hmore, (List.cons.inj htail).2.symm⟩
    | cons piece more =>
      rw [List.cons_append, List.cons.injEq] at htail
      obtain ⟨rfl, _⟩ := htail
      exact absurd hmore (hinside.pieces_ne hinside')

/-- The first question mark of a line stands in the first word that has one. What takes its place only
changes that word. -/
theorem exists_word_of_cutAt (hcut : Text.cutAt '?' line = (before, some after)) :
    ∃ words left right words', (∀ w ∈ words, '?' ∉ w) ∧ '?' ∉ left
      ∧ Text.wordRuns [] line = words ++ (left ++ '?' :: right) :: words'
      ∧ ∀ c, Text.wordRuns [] (before ++ c :: after)
        = words ++ (Text.wordRuns [] (left ++ c :: right) ++ words') := by
  have hfirst := not_mem_cutAt '?' line
  rw [hcut] at hfirst
  obtain ⟨rest, left, rfl, hleft, hcutLeft⟩ := Text.exists_wordRuns_append_left before
  obtain ⟨right, rest', rfl, hright, hcutRight⟩ := Text.exists_wordRuns_append_right after
  rw [List.mem_append, not_or] at hfirst
  have hruns : ∀ c, Text.wordRuns [] (rest ++ left ++ c :: (right ++ rest'))
      = Text.wordRuns [] rest ++ (Text.wordRuns [] (left ++ c :: right) ++ Text.wordRuns [] rest') := by
    intro c
    have hcutRight := hcutRight (left ++ [c])
    simp only [List.append_assoc, List.singleton_append] at hcutRight
    rw [List.append_assoc, hcutLeft, hcutRight]
  -- no blank stands between the question mark and what is left of its word
  have hwhole : Text.wordRuns [] (left ++ '?' :: right) = [left ++ '?' :: right] := by
    refine Text.wordRuns_of_forall (fun c hc => ?_) (by simp)
    rw [List.mem_append, List.mem_cons] at hc
    rcases hc with hc | rfl | hc
    · exact hleft c hc
    · decide
    · exact hright c hc
  refine ⟨Text.wordRuns [] rest, left, right, Text.wordRuns [] rest', fun w hw hmem => ?_, hfirst.2, ?_,
    hruns⟩
  · exact hfirst.1 ((Text.mem_of_mem_wordRuns hw hmem).resolve_left List.not_mem_nil)
  · rw [eq_of_cutAt hcut, hruns, hwhole]
    rfl

/-- In lines of the same words the first question mark may be replaced alike. It stands in the same
word of both lines, and at the same place in it. -/
theorem exists_cutAt_of_wordRuns_eq (h : Text.wordRuns [] line' = Text.wordRuns [] line)
    (hcut : Text.cutAt '?' line = (before, some after)) :
    ∃ before' after', Text.cutAt '?' line' = (before', some after')
      ∧ ∀ c, Text.wordRuns [] (before' ++ c :: after') = Text.wordRuns [] (before ++ c :: after) := by
  obtain ⟨words, left, right, words', hwords, hleft, hline, hruns⟩ := exists_word_of_cutAt hcut
  have hmaybe : ∀ left right : List Char, '?' ∈ left ++ '?' :: right :=
    fun _ _ => List.mem_append_right _ (List.mem_cons_self ..)
  cases hcut' : Text.cutAt '?' line' with
  | mk before' rest' =>
    cases rest' with
    | none =>
      have hmem : left ++ '?' :: right ∈ Text.wordRuns [] line' := by
        rw [h, hline]
        exact List.mem_append_right _ (List.mem_cons_self ..)
      have hmem := Text.mem_of_mem_wordRuns hmem (hmaybe left right)
      exact absurd (hmem.resolve_left List.not_mem_nil) (not_mem_of_cutAt_none hcut')
    | some after' =>
      obtain ⟨_, left', right', _, hwords', hleft', hline', hruns'⟩ := exists_word_of_cutAt hcut'
      -- it is the first word with a question mark, and cut at the first one in it
      rw [hline, hline'] at h
      obtain ⟨rfl, hsame, rfl⟩ := append_cons_inj_of_first (p := ('?' ∈ ·)) hwords'
        (hmaybe left' right') hwords (hmaybe left right) h
      obtain ⟨rfl, _, rfl⟩ := append_cons_inj_of_first (p := (· = '?'))
        (fun c hc heq => hleft' (heq ▸ hc)) rfl (fun c hc heq => hleft (heq ▸ hc)) rfl hsame
      exact ⟨before', after', rfl, fun c => by rw [hruns, hruns']⟩

/-- Wildcards end with a blank, so what follows them falls into pieces by itself. -/
theorem pieces_dictated_append (n : Nat) (after : List Char) :
    pieces (dictated n ++ after) = pieces (dictated n) ++ pieces after := by
  have hspace : Text.isBlank ' ' = true := by decide
  induction n with
  | zero => rfl
  | succ n ih =>
    have hcut : ∀ cs, dictated (n + 1) ++ cs = ['#'] ++ ' ' :: (dictated n ++ cs) := by
      simp [dictated, List.replicate_succ]
    have hnone := hcut []
    rw [List.append_nil, List.append_nil] at hnone
    rw [hcut, hnone, pieces_append_blank hspace, pieces_append_blank hspace, ih, List.append_assoc]

/-- They begin with one as well. -/
theorem pieces_append_dictated (before after : List Char) (n : Nat) :
    pieces (before ++ ' ' :: dictated n ++ after)
      = pieces before ++ (pieces (dictated n) ++ pieces after) := by
  rw [List.append_assoc, List.cons_append, pieces_append_blank (by decide), pieces_dictated_append]

/-- A mark that is not in a line is in no line of the same pieces. -/
theorem not_mem_of_pieces_eq (hc : isMark c = true) (h : pieces line' = pieces line) (hnot : c ∉ line) :
    c ∉ line' := by
  intro hmem
  obtain ⟨before, after, rfl⟩ := List.append_of_mem hmem
  apply hnot
  apply mem_of_singleton_mem_pieces (isBlank_of_isMark hc)
  rw [← h, pieces_append_mark hc]
  exact List.mem_append_right _ (List.mem_cons_self ..)

theorem cutAt_of_pieces_eq (hc : isMark c = true) (h : pieces line' = pieces line) (hnot : c ∉ line) :
    Text.cutAt c line' = (line', none) :=
  Text.cutAt_of_not_mem (not_mem_of_pieces_eq hc h hnot)

/-- A line without marks. -/
def Unmarked (line : List Char) : Prop := ∀ c ∈ line, isMark c = false

/-- A line without opening parentheses, plus signs and asterisks has no marks left but question
marks. -/
theorem unmarked_of_not_mem (hopen : '(' ∉ line) (hplus : '+' ∉ line) (hstar : '*' ∉ line)
    (hnested : isNested line = true) : Unmarked line := by
  intro c hc
  rw [Bool.eq_false_iff]
  intro hmark
  simp only [isMark, Bool.or_eq_true, beq_iff_eq] at hmark
  rcases hmark with ((rfl | rfl) | rfl) | rfl
  · exact hopen hc
  · exact not_mem_of_isNested hopen hnested hc
  · exact hplus hc
  · exact hstar hc

/-- Whether a line is free of marks can be told from its pieces. -/
theorem Unmarked.of_pieces_eq (hline : Unmarked line) (h : pieces line' = pieces line) :
    Unmarked line' := by
  intro c hc
  rw [Bool.eq_false_iff]
  intro hmark
  refine not_mem_of_pieces_eq hmark h (fun hmem => ?_) hc
  rw [hline c hmem] at hmark
  cases hmark

/-- A line stays free of marks if a character is replaced by one that is none. -/
theorem Unmarked.replace {d : Char} (h : Unmarked (before ++ c :: after)) (hd : isMark d = false) :
    Unmarked (before ++ d :: after) := by
  intro e he
  rcases List.mem_append.1 he with he | he
  · exact h e (List.mem_append_left _ he)
  · rcases List.mem_cons.1 he with rfl | he
    · exact hd
    · exact h e (List.mem_append_right _ (List.mem_cons_of_mem _ he))

/-! ## Blanks that make no difference -/

theorem isApart_eq (c : Char) : isApart c = (Text.isBlank c || isMark c) := by
  simp only [isApart, isMark, Bool.or_assoc]

/-- A character that ends a word is a blank or a piece of its own. -/
theorem exists_pieces_append (hc : isApart c = true) :
    ∃ mark, ∀ before after, pieces (before ++ c :: after) = pieces before ++ (mark ++ pieces after) := by
  rw [isApart_eq, Bool.or_eq_true] at hc
  rcases hc with hc | hc
  · exact ⟨[], pieces_append_blank hc⟩
  · exact ⟨[[c]], pieces_append_mark hc⟩

/-- A question mark that stands apart is a piece of its own, since what is beside it ends a piece. -/
theorem pieces_append_maybe (hbefore : ∀ c ∈ before.getLast?, isApart c = true)
    (hafter : ∀ c ∈ after.head?, isApart c = true) :
    pieces (before ++ '?' :: after) = pieces before ++ ['?'] :: pieces after := by
  have hright : pieces ('?' :: after) = ['?'] :: pieces after := by
    cases after with
    | nil => rfl
    | cons c after =>
      obtain ⟨mark, hmark⟩ := exists_pieces_append (hafter c rfl)
      have hnone := hmark [] after
      rw [List.nil_append] at hnone
      rw [hnone]
      exact hmark ['?'] after
  rcases List.eq_nil_or_concat before with rfl | ⟨before, c, rfl⟩
  · exact hright
  · obtain ⟨mark, hmark⟩ := exists_pieces_append (hbefore c (by simp))
    have hnone := hmark before []
    rw [List.concat_eq_append, hnone, List.append_assoc, List.singleton_append, hmark, hright]
    simp [pieces, spaced, Text.wordRuns]

/-- The one sign that is no mark is the question mark. -/
theorem eq_maybe_of_sign? (hsign : (sign? c).isSome = true) (hmark : ¬isMark c = true) : c = '?' := by
  unfold sign? at hsign
  split at hsign
  all_goals first | rfl | exact absurd rfl hmark | cases hsign

/-- A sign with blanks around it, before a rest that has kept its pieces. A question mark has to
stand apart for this, since next to a word it is a part of the word. -/
theorem pieces_append_spaced_sign {rest cs : List Char} (hsign : (sign? c).isSome = true)
    (hmaybe : c = '?' → Apart (before ++ c :: cs)) (hrest : pieces rest = pieces cs) :
    pieces (before ++ ' ' :: c :: ' ' :: rest) = pieces (before ++ c :: cs) := by
  have hspace : Text.isBlank ' ' = true := by decide
  have hblanks : ∀ piece, pieces (before ++ c :: cs) = pieces before ++ piece :: pieces cs →
      pieces (c :: ' ' :: rest) = piece :: pieces (' ' :: rest) →
      pieces (before ++ ' ' :: c :: ' ' :: rest) = pieces (before ++ c :: cs) := by
    intro piece hline hafter
    have hskip : pieces (' ' :: rest) = pieces rest := pieces_append_blank hspace [] _
    rw [pieces_append_blank hspace, hafter, hskip, hrest, hline]
  by_cases hmark : isMark c = true
  · exact hblanks [c] (pieces_append_mark hmark before cs) (pieces_append_mark hmark [] (' ' :: rest))
  · obtain rfl := eq_maybe_of_sign? hsign hmark
    obtain ⟨_, hafter, hbefore⟩ := List.isChain_append.1 (hmaybe rfl)
    refine hblanks ['?'] (pieces_append_maybe (fun d hd => ?_) fun d hd => ?_)
      (@pieces_append_maybe [] _ (fun _ hd => nomatch hd) fun d hd => ?_)
    · exact (hbefore d hd '?' rfl).2 rfl
    · exact ((List.isChain_cons.1 hafter).1 d hd).1 rfl
    · cases hd
      decide

/-- Blanks around signs leave the pieces of a line as they are, unless they are put around a question
mark that does not stand apart, whatever stands before the line. -/
theorem pieces_append_spaced {p : Char → Bool} (hp : ∀ c, p c = true → (sign? c).isSome = true)
    (before : List Char) (hmaybe : p '?' = true → Apart (before ++ line)) :
    pieces (before ++ spaced p line) = pieces (before ++ line) := by
  induction line generalizing before with
  | nil => rfl
  | cons c cs ih =>
    have hcons : spaced p (c :: cs) = (if p c then [' ', c, ' '] else [c]) ++ spaced p cs := rfl
    rw [hcons]
    split
    · rename_i hc
      have hrest : pieces (spaced p cs) = pieces cs := ih [] fun h => (hmaybe h).of_append_cons.2
      refine pieces_append_spaced_sign (hp c hc) (fun heq => hmaybe ?_) hrest
      rw [← heq]
      exact hc
    · have ih := ih (before ++ [c]) (by simpa using hmaybe)
      simpa using ih

theorem pieces_spaced {p : Char → Bool} (hp : ∀ c, p c = true → (sign? c).isSome = true)
    (hmaybe : p '?' = true → Apart line) : pieces (spaced p line) = pieces line :=
  pieces_append_spaced hp [] hmaybe

end Sugar

end Utterance
