import Utterance.Rule.Sugar

/-!
# The signs of a line

A line is read as a row of signs: words, parentheses and the three signs for dictated words. Blanks and
the signs themselves end a word. Parentheses nest if every one has its counterpart, which is the only
one it has; counting those that are open tells whether they do.
-/

namespace Utterance.Sugar

/-! ## Signs -/

/-- A sign of a line. -/
inductive Sign where
  | word (text : String)
  | opens
  | closes
  | maybe
  | star
  | plus
  deriving DecidableEq

/-- The sign that a character is by itself. -/
def sign? : Char → Option Sign
  | '(' => some .opens
  | ')' => some .closes
  | '?' => some .maybe
  | '*' => some .star
  | '+' => some .plus
  | _ => none

/-- The word of which the characters `run`, the last one first, were read, if there are any. -/
def wordSign (run : List Char) : List Sign :=
  if run.isEmpty then [] else [.word (String.ofList run.reverse)]

/-- The signs of a text that goes on with a word of which `run` was read. -/
def signsFrom (run : List Char) : List Char → List Sign
  | [] => wordSign run
  | c :: cs =>
    if Text.isBlank c || (sign? c).isSome then wordSign run ++ (sign? c).toList ++ signsFrom [] cs
    else signsFrom (c :: run) cs

/-- The signs of a line. -/
def signs (line : List Char) : List Sign := signsFrom [] line

/-- A blank is no sign. -/
theorem sign?_of_isBlank {c : Char} (h : Text.isBlank c = true) : sign? c = none := by
  unfold sign?
  split
  all_goals first | rfl | exact absurd h (by decide)

/-- What ends a word cuts the signs of a text in two: a blank ends it and is no sign itself, and a
sign ends it and stands between the two parts. -/
theorem signsFrom_append_cons {c : Char} (hc : (Text.isBlank c || (sign? c).isSome) = true)
    (run before after : List Char) :
    signsFrom run (before ++ c :: after)
      = signsFrom run before ++ (sign? c).toList ++ signs after := by
  induction before generalizing run with
  | nil =>
    show signsFrom run (c :: after) = wordSign run ++ (sign? c).toList ++ signs after
    rw [signsFrom, if_pos hc, signs]
  | cons d before ih =>
    rw [List.cons_append, signsFrom, signsFrom]
    split
    · rw [ih]
      simp only [List.append_assoc]
    · exact ih _

/-- A line may be cut at a blank. -/
theorem signs_append_blank {c : Char} (hc : Text.isBlank c = true) (before after : List Char) :
    signs (before ++ c :: after) = signs before ++ signs after := by
  rw [signs, signsFrom_append_cons (by simp [hc]), sign?_of_isBlank hc, Option.toList_none,
    List.append_nil]
  rfl

/-- A line may be cut at a sign, which then stands between the signs of the parts. -/
theorem signs_append_sign {c : Char} {s : Sign} (hc : sign? c = some s) (before after : List Char) :
    signs (before ++ c :: after) = signs before ++ s :: signs after := by
  rw [signs, signsFrom_append_cons (by simp [hc]), hc, Option.toList_some, List.append_assoc]
  rfl

/-- Without any sign characters, the signs of a text are its words. -/
theorem signsFrom_eq_map {cs : List Char} (h : ∀ c ∈ cs, sign? c = none) (run : List Char) :
    signsFrom run cs = (Text.wordRuns run cs).map fun w => .word (String.ofList w) := by
  induction cs generalizing run with
  | nil =>
    rw [signsFrom, Text.wordRuns, wordSign]
    split <;> rfl
  | cons c cs ih =>
    have hnone := h c (List.mem_cons_self ..)
    have ih := ih fun d hd => h d (List.mem_cons_of_mem _ hd)
    -- a word ends at a blank for both, and there is nothing else that could end it
    rw [signsFrom, Text.wordRuns, hnone]
    cases Text.isBlank c with
    | true =>
      simp only [Bool.true_or, if_true, Option.toList_none, List.append_nil, ih, wordSign]
      split <;> rfl
    | false => simpa using ih (c :: run)

/-- A line without signs is its words. -/
theorem signs_eq_map {cs : List Char} (h : ∀ c ∈ cs, sign? c = none) :
    signs cs = (Text.words (String.ofList cs)).map .word := by
  rw [signs, signsFrom_eq_map h, Text.words, String.toList_ofList, List.map_map]
  rfl

/-- Wildcards with blanks after them are words of their own. -/
theorem signs_dictated_append (n : Nat) (after : List Char) :
    signs (dictated n ++ after) = List.replicate n (.word "#") ++ signs after := by
  induction n with
  | zero => rfl
  | succ n ih =>
    have hcut : dictated (n + 1) ++ after = ['#'] ++ ' ' :: (dictated n ++ after) := by
      simp [dictated, List.replicate_succ]
    rw [hcut, signs_append_blank (by decide), ih, List.replicate_succ]
    rfl

/-! ## Nesting -/

/-- Rows of signs in which every parenthesis has its counterpart. -/
inductive Nested : List Sign → Prop where
  | nil : Nested []
  | cons {s : Sign} {ss : List Sign} (opens : s ≠ .opens) (closes : s ≠ .closes)
      (rest : Nested ss) : Nested (s :: ss)
  | group {ss rs : List Sign} (inside : Nested ss) (rest : Nested rs) :
      Nested (.opens :: ss ++ .closes :: rs)

/-- Rows that nest may be put together. -/
theorem Nested.append {ss rs : List Sign} (h : Nested ss) (h' : Nested rs) : Nested (ss ++ rs) := by
  induction h with
  | nil => exact h'
  | cons opens closes _ ih => exact .cons opens closes ih
  | group inside _ _ ih =>
    have hgroup := Nested.group inside ih
    simpa using hgroup

/-- A parenthesis has one counterpart only. Two rows that nest and are followed by a closing
parenthesis, in the same row of signs, are the same row: neither can end inside the other. -/
theorem Nested.closes_unique {ss ss' rs rs' : List Sign} (h : Nested ss) (h' : Nested ss')
    (heq : ss ++ .closes :: rs = ss' ++ .closes :: rs') : ss = ss' ∧ rs = rs' := by
  -- the two rows are taken apart side by side; where one closes a group the other does as well
  induction h generalizing ss' rs rs' with
  | nil =>
    cases h' with
    | nil =>
      cases heq
      exact ⟨rfl, rfl⟩
    | cons _ closes _ =>
      cases heq
      exact absurd rfl closes
    | group _ _ => cases heq
  | cons opens closes _ ih =>
    cases h' with
    | nil =>
      cases heq
      exact absurd rfl closes
    | cons _ _ rest' =>
      simp only [List.cons_append, List.cons.injEq] at heq
      obtain ⟨rfl, heq⟩ := heq
      obtain ⟨rfl, rfl⟩ := ih rest' heq
      exact ⟨rfl, rfl⟩
    | group _ _ =>
      simp only [List.cons_append, List.cons.injEq] at heq
      exact absurd heq.1 opens
  | group _ _ ihInside ih =>
    cases h' with
    | nil => cases heq
    | cons opens _ _ =>
      simp only [List.cons_append, List.cons.injEq] at heq
      exact absurd heq.1.symm opens
    | group inside' rest' =>
      simp only [List.cons_append, List.append_assoc, List.cons.injEq, true_and] at heq
      obtain ⟨rfl, hrest⟩ := ihInside inside' heq
      obtain ⟨rfl, rfl⟩ := ih rest' hrest
      exact ⟨rfl, rfl⟩

/-- Whether parentheses nest can be told by counting those that are open. -/
def nestsFrom (depth : Nat) : List Sign → Bool
  | [] => depth == 0
  | .opens :: ss => nestsFrom (depth + 1) ss
  | .closes :: ss =>
    match depth with
    | 0 => false
    | depth + 1 => nestsFrom depth ss
  | _ :: ss => nestsFrom depth ss

/-- A word does not change the depth. -/
theorem nestsFrom_wordSign_append (depth : Nat) (run : List Char) (ss : List Sign) :
    nestsFrom depth (wordSign run ++ ss) = nestsFrom depth ss := by
  unfold wordSign
  split <;> rfl

/-- Nor does any other character that is no parenthesis. -/
theorem nestedFrom_cons_of_ne {c : Char} (hopen : c ≠ '(') (hclose : c ≠ ')') (depth : Nat)
    (cs : List Char) : nestedFrom depth (c :: cs) = nestedFrom depth cs := by
  rw [nestedFrom]
  · exact hopen
  · exact hclose

/-- Nor does any other sign. -/
theorem nestsFrom_cons_of_ne {s : Sign} (hopen : s ≠ .opens) (hclose : s ≠ .closes) (depth : Nat)
    (ss : List Sign) : nestsFrom depth (s :: ss) = nestsFrom depth ss := by
  cases s with
  | opens => exact absurd rfl hopen
  | closes => exact absurd rfl hclose
  | word _ | maybe | star | plus => rfl

/-- Counting parentheses among the characters of a line and among its signs is the same. The
induction is on the characters, for any number of open ones and any word that has been begun. -/
theorem nestedFrom_eq (depth : Nat) (run cs : List Char) :
    nestedFrom depth cs = nestsFrom depth (signsFrom run cs) := by
  induction cs generalizing depth run with
  | nil =>
    rw [signsFrom, ← List.append_nil (wordSign run), nestsFrom_wordSign_append]
    rfl
  | cons c cs ih =>
    rw [signsFrom]
    by_cases hopen : c = '('
    · subst hopen
      rw [if_pos (by decide), List.append_assoc, nestsFrom_wordSign_append]
      exact ih (depth + 1) []
    by_cases hclose : c = ')'
    · subst hclose
      rw [if_pos (by decide), List.append_assoc, nestsFrom_wordSign_append]
      cases depth with
      | zero => rfl
      | succ depth => exact ih depth []
    -- no other sign is counted
    · rw [nestedFrom_cons_of_ne hopen hclose]
      split
      · rw [List.append_assoc, nestsFrom_wordSign_append, ih depth []]
        unfold sign?
        split <;> first | rfl | contradiction
      · exact ih depth (c :: run)

/-- Signs that nest come back to the depth at which they begin. -/
theorem Nested.nestsFrom_append {ss : List Sign} (h : Nested ss) (depth : Nat) (rs : List Sign) :
    nestsFrom depth (ss ++ rs) = nestsFrom depth rs := by
  induction h generalizing depth rs with
  | nil => rfl
  | cons opens closes _ ih => rw [List.cons_append, nestsFrom_cons_of_ne opens closes, ih]
  | group _ _ ihInside ih =>
    simp only [List.cons_append, List.append_assoc]
    rw [nestsFrom, ihInside, nestsFrom, ih]

theorem isNested_of_nested {line : List Char} (h : Nested (signs line)) : isNested line = true := by
  rw [isNested, nestedFrom_eq 0 [], ← List.append_nil (signsFrom [] line)]
  exact h.nestsFrom_append 0 []

/-- What has no opening parenthesis has no closing one either, if it starts a text that nests. -/
theorem nestedFrom_zero_append {before after : List Char} (hopen : '(' ∉ before)
    (h : nestedFrom 0 (before ++ after) = true) : ')' ∉ before ∧ nestedFrom 0 after = true := by
  induction before with
  | nil => exact ⟨List.not_mem_nil, h⟩
  | cons c before ih =>
    rw [List.mem_cons, not_or] at hopen
    by_cases hclose : c = ')'
    -- a closing parenthesis closes nothing here, so the text would not nest
    · subst hclose
      cases h
    · rw [List.cons_append, nestedFrom_cons_of_ne (Ne.symm hopen.1) hclose] at h
      obtain ⟨hbefore, hafter⟩ := ih hopen.2 h
      refine ⟨?_, hafter⟩
      rw [List.mem_cons, not_or]
      exact ⟨Ne.symm hclose, hbefore⟩

/-- Without an opening parenthesis there is no closing one in a line that passes the test. -/
theorem not_mem_of_isNested {cs : List Char} (hopen : '(' ∉ cs) (h : isNested cs = true) :
    ')' ∉ cs := by
  rw [isNested, ← List.append_nil cs] at h
  exact (nestedFrom_zero_append hopen h).1

/-- A group of a text that nests is closed, and inside it parentheses nest as well. -/
theorem closeGroup_spec {depth : Nat} (inner : Nat) {cs : List Char}
    (h : nestedFrom (depth + inner + 1) cs = true) :
    cs = (closeGroup inner cs).1 ++ ')' :: (closeGroup inner cs).2
      ∧ nestedFrom inner (closeGroup inner cs).1 = true
      ∧ nestedFrom depth (closeGroup inner cs).2 = true := by
  -- `depth` counts the groups around this one, which stay open
  induction cs generalizing inner with
  | nil => cases h
  | cons c cs ih =>
    rw [closeGroup]
    by_cases hopen : c = '('
    · subst hopen
      obtain ⟨hcs, hinside, hrest⟩ := ih (inner + 1) h
      exact ⟨congrArg ('(' :: ·) hcs, hinside, hrest⟩
    by_cases hclose : c = ')'
    · subst hclose
      cases inner with
      | zero => exact ⟨rfl, rfl, h⟩
      | succ inner =>
        obtain ⟨hcs, hinside, hrest⟩ := ih inner h
        exact ⟨congrArg (')' :: ·) hcs, hinside, hrest⟩
    · rw [nestedFrom_cons_of_ne hopen hclose] at h
      obtain ⟨hcs, hinside, hrest⟩ := ih inner h
      simp only [hopen, hclose, decide_false, Bool.false_and, Bool.false_eq_true, if_false]
      refine ⟨congrArg (c :: ·) hcs, ?_, hrest⟩
      rw [nestedFrom_cons_of_ne hopen hclose]
      exact hinside

/-- What stands before the first of some characters has none of them. -/
theorem not_mem_cutAt (c : Char) (cs : List Char) : c ∉ (Text.cutAt c cs).1 := by
  induction cs with
  | nil => exact List.not_mem_nil
  | cons d cs ih =>
    rw [Text.cutAt]
    split
    · exact List.not_mem_nil
    · rename_i hd
      rw [List.mem_cons, not_or]
      exact ⟨Ne.symm hd, ih⟩

/-- A line that cannot be cut stays whole. -/
theorem eq_of_cutAt_none {c : Char} {cs before : List Char}
    (h : Text.cutAt c cs = (before, none)) : before = cs := by
  induction cs generalizing before with
  | nil =>
    cases h
    rfl
  | cons d cs ih =>
    rw [Text.cutAt] at h
    split at h
    · cases h
    · simp only [Prod.mk.injEq] at h
      rw [← h.1]
      exact congrArg (d :: ·) (ih (Prod.ext rfl h.2))

/-- A word nests. -/
theorem nested_wordSign (run : List Char) : Nested (wordSign run) := by
  unfold wordSign
  split
  · exact .nil
  · exact .cons (by simp) (by simp) .nil

/-- Without parentheses signs nest, since every other sign stands for itself. -/
theorem nested_of_not_mem {cs : List Char} (hopen : '(' ∉ cs) (hclose : ')' ∉ cs)
    (run : List Char) : Nested (signsFrom run cs) := by
  induction cs generalizing run with
  | nil => exact nested_wordSign run
  | cons c cs ih =>
    rw [List.mem_cons, not_or] at hopen hclose
    have ih := ih hopen.2 hclose.2
    rw [signsFrom]
    split
    · have hsign : Nested (sign? c).toList := by
        unfold sign?
        split
        -- neither bracket stands in the text, and the other signs are single ones
        · exact absurd rfl hopen.1
        · exact absurd rfl hclose.1
        · exact .cons (by simp) (by simp) .nil
        · exact .cons (by simp) (by simp) .nil
        · exact .cons (by simp) (by simp) .nil
        · exact .nil
      exact ((nested_wordSign run).append hsign).append (ih [])
    · exact ih (c :: run)

/-- The first group of a text that nests: before it there are no parentheses, it is closed, and
parentheses nest inside it and after it. -/
theorem isNested_group {before after : List Char} (hopen : '(' ∉ before)
    (h : isNested (before ++ '(' :: after) = true) :
    ')' ∉ before
      ∧ after = (closeGroup 0 after).1 ++ ')' :: (closeGroup 0 after).2
      ∧ isNested (closeGroup 0 after).1 = true ∧ isNested (closeGroup 0 after).2 = true := by
  obtain ⟨hclose, hafter⟩ := nestedFrom_zero_append hopen h
  exact ⟨hclose, closeGroup_spec 0 hafter⟩

/-- Counting parentheses tells that they nest. An opening parenthesis raises the depth and must be
closed before the end, where the depth is zero; so there is a counterpart, and what is in between
comes back to its own depth. -/
theorem nested_of_isNested {line : List Char} (h : isNested line = true) : Nested (signs line) := by
  induction hn : line.length using Nat.strongRecOn generalizing line with
  | ind n ih =>
    have hfirst := not_mem_cutAt '(' line
    cases hcut : Text.cutAt '(' line with
    | mk before rest =>
      rw [hcut] at hfirst
      cases rest with
      | none =>
        rw [eq_of_cutAt_none hcut] at hfirst
        exact nested_of_not_mem hfirst (not_mem_of_isNested hfirst h) []
      | some after =>
        have hline := eq_of_cutAt hcut
        subst hline
        obtain ⟨hclose, hafter, hinside, hrest⟩ := isNested_group hfirst h
        generalize closeGroup 0 after = group at hafter hinside hrest
        obtain ⟨inside, rest⟩ := group
        simp only at hafter hinside hrest
        subst hafter
        -- inside and rest are shorter than the line
        simp only [List.length_append, List.length_cons] at hn
        have ihInside := ih inside.length (by omega) hinside rfl
        have ihRest := ih rest.length (by omega) hrest rfl
        rw [signs_append_sign rfl, signs_append_sign rfl]
        exact (nested_of_not_mem hfirst hclose []).append (.group ihInside ihRest)

/-! ## Putting something in for a sign -/

section Rewriting

variable {line before after : List Char} {c : Char}

theorem isNested_of_not_mem (hopen : '(' ∉ line) (hclose : ')' ∉ line) : isNested line = true :=
  isNested_of_nested (nested_of_not_mem hopen hclose [])

/-- A line without any of the sugar characters has no sign. -/
theorem sign?_eq_none_of_not_mem (h : isNested line = true) (hopen : '(' ∉ line) (hplus : '+' ∉ line)
    (hstar : '*' ∉ line) (hmaybe : '?' ∉ line) : ∀ c ∈ line, sign? c = none := by
  intro c hc
  unfold sign?
  split
  · exact absurd hc hopen
  · exact absurd hc (not_mem_of_isNested hopen h)
  · exact absurd hc hmaybe
  · exact absurd hc hstar
  · exact absurd hc hplus
  · rfl

/-- Where there are no groups, a text without parentheses may take the place of a character. -/
theorem isNested_replace {text : List Char} (hopen : '(' ∉ before ++ c :: after)
    (hnested : isNested (before ++ c :: after) = true) (htext : '(' ∉ text ∧ ')' ∉ text) :
    isNested (before ++ text ++ after) = true := by
  have hclose := not_mem_of_isNested hopen hnested
  apply isNested_of_not_mem <;> simp_all

/-- Replacing a character that is no parenthesis by another changes nothing about nesting. -/
theorem isNested_replace_char {d : Char} (hopen : '(' ∉ before ++ c :: after)
    (hnested : isNested (before ++ c :: after) = true) (hd : '(' ≠ d) (hd' : ')' ≠ d) :
    isNested (before ++ d :: after) = true := by
  have hreplaced := isNested_replace hopen hnested
    ⟨fun hmem => hd (List.mem_singleton.1 hmem), fun hmem => hd' (List.mem_singleton.1 hmem)⟩
  rwa [List.append_assoc, List.singleton_append] at hreplaced

theorem not_mem_dictated (n : Nat) : '(' ∉ ' ' :: dictated n ∧ ')' ∉ ' ' :: dictated n := by
  simp [dictated]

/-- The first group may be left out, and so may its parentheses. What stands in their place are
blanks, which have no part in the nesting. -/
theorem isNested_open (hopen : '(' ∉ before) (hnested : isNested (before ++ '(' :: after) = true) :
    isNested (before ++ ' ' :: (closeGroup 0 after).1 ++ ' ' :: (closeGroup 0 after).2) = true
      ∧ isNested (before ++ ' ' :: (closeGroup 0 after).2) = true := by
  have hspace : Text.isBlank ' ' = true := by decide
  obtain ⟨hclose, _, hinside, hrest⟩ := isNested_group hopen hnested
  have hbefore := nested_of_not_mem hopen hclose []
  have hinside := nested_of_isNested hinside
  have hrest := nested_of_isNested hrest
  constructor
  · apply isNested_of_nested
    rw [signs_append_blank hspace, signs_append_blank hspace]
    exact (hbefore.append hinside).append hrest
  · apply isNested_of_nested
    rw [signs_append_blank hspace]
    exact hbefore.append hrest

end Rewriting

end Utterance.Sugar
