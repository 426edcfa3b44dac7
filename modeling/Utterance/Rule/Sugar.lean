import Utterance.Text.Blank

/-!
# Sugared expansions

An expansion may hold an optional group in parentheses, `?` for one dictated word or none, `*` for any
number of dictated words up to a limit, and `+` for at least one. `variants` lists the plain
expansions that a sugared one stands for, the more specific ones first.
-/

namespace Utterance.Sugar

/-! ## Nesting -/

/-- Whether every closing parenthesis closes an earlier one and none is left open, with `depth` open
before. -/
def nestedFrom (depth : Nat) : List Char → Bool
  | [] => depth == 0
  | '(' :: cs => nestedFrom (depth + 1) cs
  | ')' :: cs =>
    match depth with
    | 0 => false
    | depth + 1 => nestedFrom depth cs
  | _ :: cs => nestedFrom depth cs

/-- Whether the parentheses of a line nest. -/
def isNested (line : List Char) : Bool := nestedFrom 0 line

/-- Inside and rest of a group of which `depth` inner groups are open. A group that is never closed
runs to the end. -/
def closeGroup (depth : Nat) : List Char → List Char × List Char
  | [] => ([], [])
  | c :: cs =>
    if c = ')' && depth = 0 then ([], cs)
    else
      let depth := if c = '(' then depth + 1 else if c = ')' then depth - 1 else depth
      let (inside, rest) := closeGroup depth cs
      (c :: inside, rest)

/-! ## Plain variants -/

/-- A character that stands for something else. -/
def isSugar (c : Char) : Bool := c == '(' || c == '+' || c == '*' || c == '?'

/-- `n` wildcards with a blank after each. -/
def dictated (n : Nat) : List Char := (List.replicate n ['#', ' ']).flatten

/-- The parts of a line that was cut, with the character between them, are the line. -/
theorem eq_of_cutAt {c : Char} {cs before after : List Char}
    (h : Text.cutAt c cs = (before, some after)) : cs = before ++ c :: after := by
  induction cs generalizing before with
  | nil => simp [Text.cutAt] at h
  | cons d ds ih =>
    rw [Text.cutAt] at h
    split at h
    · rename_i hd
      simp only [Prod.mk.injEq, Option.some.injEq] at h
      obtain ⟨rfl, rfl⟩ := h
      simp [hd]
    · simp only [Prod.mk.injEq] at h
      obtain ⟨rfl, h2⟩ := h
      exact congrArg (d :: ·) (ih (Prod.ext rfl h2))

/-- Closing a group gives out no character twice, so the two parts together have no more sugar than
the whole. This is what makes the rewriting come to an end. -/
theorem countP_closeGroup_le (p : Char → Bool) (depth : Nat) (cs : List Char) :
    (closeGroup depth cs).1.countP p + (closeGroup depth cs).2.countP p ≤ cs.countP p := by
  induction cs generalizing depth with
  | nil => simp [closeGroup]
  | cons c cs ih =>
    rw [closeGroup]
    split
    · simp [List.countP_cons]
    · simp only [List.countP_cons]
      have := ih (if c = '(' then depth + 1 else if c = ')' then depth - 1 else depth)
      omega

@[simp] theorem countP_dictated (n : Nat) : (dictated n).countP isSugar = 0 := by
  simp [dictated, List.countP_flatten, isSugar]

/-- The plain expansions that a sugared one stands for, in the order in which they are added. `limit`
is the largest number of dictated words that one character stands for. -/
def variants (limit : Nat) (line : List Char) : List (List Char) :=
  match _h₁ : Text.cutAt '(' line with
  | (before, some after) =>
    let group := closeGroup 0 after
    -- with the group first, as the more specific variant
    variants limit (before ++ ' ' :: group.1 ++ ' ' :: group.2)
      ++ variants limit (before ++ ' ' :: group.2)
  | (_, none) =>
    match _h₂ : Text.cutAt '+' line with
    | (before, some after) =>
      (List.range limit).flatMap fun n =>
        variants limit (before ++ ' ' :: dictated (n + 1) ++ after)
    | (_, none) =>
      match _h₃ : Text.cutAt '*' line with
      | (before, some after) =>
        -- no word at all, then one word and more
        variants limit (before ++ ' ' :: after)
          ++ (List.range limit).flatMap fun n =>
            variants limit (before ++ ' ' :: dictated (n + 1) ++ after)
      | (_, none) =>
        match _h₄ : Text.cutAt '?' line with
        | (before, some after) =>
          variants limit (before ++ ' ' :: after) ++ variants limit (before ++ '#' :: after)
        | (_, none) => [line]
termination_by line.countP isSugar
decreasing_by
  · rw [eq_of_cutAt _h₁]
    have hg := countP_closeGroup_le isSugar 0 after
    simp [List.countP_append, isSugar] at hg ⊢
    omega
  · rw [eq_of_cutAt _h₁]
    have hg := countP_closeGroup_le isSugar 0 after
    simp [List.countP_append, isSugar] at hg ⊢
    omega
  · rw [eq_of_cutAt _h₂]
    simp [List.countP_append, isSugar]
  · rw [eq_of_cutAt _h₃]
    simp [List.countP_append, isSugar]
  · rw [eq_of_cutAt _h₃]
    simp [List.countP_append, isSugar]
  · rw [eq_of_cutAt _h₄]
    simp [List.countP_append, isSugar]
  · rw [eq_of_cutAt _h₄]
    simp [List.countP_append, isSugar]

end Utterance.Sugar
