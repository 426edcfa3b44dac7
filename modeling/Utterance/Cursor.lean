import Utterance.Tree

/-!
# Walking a tree

A cursor points at a node of a derivation. It starts at the root, where it shows the head of the
production; further down it shows the heads in a production one after the other. A move that is not
possible gives nothing, and the cursor stays where it is.
-/

namespace Utterance

/-- A node and which of its heads is looked at, counted from one; zero is the node itself. -/
structure Frame where
  node : Tree
  mark : Nat

/-- The frames from the one looked at up to the root. Without frames the cursor points nowhere. -/
abbrev Cursor := List Frame

namespace Cursor

/-- The cursor at the root of a tree. -/
def root (t : Tree) : Cursor := [⟨t, 0⟩]

/-! ## Looking -/

/-- Name of the `n`-th head in a node's production. -/
def label? (g : Grammar) (t : Tree) (n : Nat) : Except Fault (Option String) :=
  (t.labels g).map fun ls => ls[n - 1]?

/-- Part of the `n`-th head in a node's production. -/
def part? (g : Grammar) (t : Tree) (n : Nat) : Except Fault (Option Tree) :=
  (t.subtrees g).map fun ks => ks[n - 1]?

/-- Name of the node that the cursor points at. -/
def focus (g : Grammar) : Cursor → Except Fault (Option String)
  | [] => .ok none
  | f :: _ =>
    if f.mark = 0 then (f.node.production g).map fun p => some p.head
    else label? g f.node f.mark

/-- First and last word of the node that the cursor points at. -/
def span (g : Grammar) : Cursor → Except Fault (Option (Nat × Nat))
  | [] => .ok none
  | f :: _ =>
    if f.mark = 0 then .ok f.node.span?
    else (part? g f.node f.mark).map fun part => part.bind Tree.span?

/-! ## Moving -/

/-- To the first head inside the focus. -/
def down (g : Grammar) : Cursor → Except Fault (Option Cursor)
  | [] => .ok none
  | f :: rest =>
    -- from the root itself only the mark moves
    if f.mark = 0 then
      match label? g f.node 1 with
      | .error e => .error e
      | .ok none => .ok none
      | .ok (some _) => .ok (some ({ f with mark := 1 } :: rest))
    else
      match part? g f.node f.mark with
      | .error e => .error e
      | .ok none => .ok none
      | .ok (some .word) => .ok none
      | .ok (some part) =>
        match label? g part 1 with
        | .error e => .error e
        | .ok none => .ok none
        | .ok (some _) => .ok (some (⟨part, 1⟩ :: f :: rest))

/-- To the next head of the same production. There is none beside the root. -/
def next (g : Grammar) : Cursor → Except Fault (Option Cursor)
  | [] => .ok none
  | f :: rest =>
    if f.mark = 0 then .ok none
    else
      match label? g f.node (f.mark + 1) with
      | .error e => .error e
      | .ok none => .ok none
      | .ok (some _) => .ok (some ({ f with mark := f.mark + 1 } :: rest))

/-- Back to where the last move down came from. -/
def up : Cursor → Option Cursor
  | [] => none
  | [f] => if f.mark = 0 then none else some [{ f with mark := 0 }]
  | _ :: f :: rest => some (f :: rest)

/-! ## Walks end -/

/-- Number of heads in a node's production. -/
def width (g : Grammar) (t : Tree) : Nat :=
  match t.labels g with
  | .ok ls => ls.length
  | .error _ => 0

/-- What every move down or on lowers: the size of the node, then the heads that are left. -/
def extent (g : Grammar) : Cursor → Nat × Nat
  | [] => (0, 0)
  | f :: _ => (f.node.size, width g f.node + 1 - f.mark)

/-- A head that is there is one of those counted. -/
theorem le_width_of_label? {g : Grammar} {t : Tree} {n : Nat} {s : String}
    (h : label? g t (n + 1) = .ok (some s)) : n + 1 ≤ width g t := by
  unfold label? at h
  unfold width
  cases hl : t.labels g with
  | error e => simp [hl, Except.map] at h
  | ok ls =>
    simp only [hl, Except.map, Nat.add_sub_cancel, Except.ok.injEq] at h
    exact (List.getElem?_eq_some_iff.1 h).1

/-- A part for a head is a part. -/
theorem mem_parts_of_part? {g : Grammar} {t k : Tree} {n : Nat}
    (h : part? g t n = .ok (some k)) : k ∈ t.parts := by
  unfold part? at h
  cases hs : t.subtrees g with
  | error e => simp [hs, Except.map] at h
  | ok ks =>
    simp only [hs, Except.map, Except.ok.injEq] at h
    exact Tree.mem_parts_of_subtrees hs (List.mem_of_getElem? h)

/-- A move down lowers the extent: it opens a smaller tree, or looks at the first head of the same
one. -/
theorem extent_down {g : Grammar} {c c' : Cursor} (h : down g c = .ok (some c')) :
    Prod.Lex (· < ·) (· < ·) (extent g c') (extent g c) := by
  cases c with
  | nil => simp [down] at h
  | cons f rest =>
    simp only [down] at h
    split at h
    · rename_i hmark
      split at h <;> simp only [Except.ok.injEq, Option.some.injEq, reduceCtorEq] at h
      rename_i hl
      subst h
      -- the mark moves on below the same tree, which has that much less ahead
      refine .right _ ?_
      have := le_width_of_label? hl
      simp only
      omega
    · split at h
      · simp at h
      · simp at h
      · simp at h
      · rename_i part hpart
        split at h <;> simp only [Except.ok.injEq, Option.some.injEq, reduceCtorEq] at h
        subst h
        -- a part is smaller than the tree that it is a part of
        exact .left _ _ (Tree.size_lt_of_mem_parts (mem_parts_of_part? hpart))

/-- A move on leaves one head less ahead in the same tree. The tree is the first component of the
extent and the heads that are ahead in it the second. -/
theorem extent_next {g : Grammar} {c c' : Cursor} (h : next g c = .ok (some c')) :
    Prod.Lex (· < ·) (· < ·) (extent g c') (extent g c) := by
  cases c with
  | nil => simp [next] at h
  | cons f rest =>
    simp only [next] at h
    split at h
    · simp at h
    · rename_i hmark
      split at h <;> simp only [Except.ok.injEq, Option.some.injEq, reduceCtorEq] at h
      rename_i hl
      subst h
      refine .right _ ?_
      have := le_width_of_label? hl
      simp only
      omega

/-! ## Walks

A walk that meets a production which the grammar does not have stops there: its fault comes with the
cursor at that place. -/

/-- A fault with the place where it arose. -/
abbrev Stop := Fault × Cursor

/-- The result of looking or moving from a place. -/
def here {α : Type} (c : Cursor) (r : Except Fault α) : Except Stop α := r.mapError fun e => (e, c)

/-- The first node without a small letter in its name, depth first from the focus. -/
def findMajor (g : Grammar) (c : Cursor) : Except Stop (Option (String × Cursor)) :=
  match here c (focus g c) with
  | .error e => .error e
  | .ok label =>
    match label.filter fun l => !l.toList.any Text.isLower with
    | some l => .ok (some (l, c))
    | none =>
      match _hd : down g c with
      | .error e => .error (e, c)
      | .ok (some inner) =>
        match findMajor g inner with
        | .error e => .error e
        | .ok (some found) => .ok (some found)
        | .ok none =>
          match _hn : next g c with
          | .error e => .error (e, c)
          | .ok (some beside) => findMajor g beside
          | .ok none => .ok none
      | .ok none =>
        match _hn : next g c with
        | .error e => .error (e, c)
        | .ok (some beside) => findMajor g beside
        | .ok none => .ok none
termination_by extent g c
decreasing_by
  · exact extent_down _hd
  · exact extent_next _hn
  · exact extent_next _hn

/-- The spelled words `first` to `last` with single spaces between them. -/
def wordsText (spelling : List String) (first last : Nat) : String :=
  " ".intercalate (Text.slice first (last + 1 : Nat) spelling)

/-- The lines that show the focus and the nodes beside it, inside a node of the words `first` to
`last`. Words between the nodes have lines of their own. -/
def lines (g : Grammar) (spelling : List String) (indent first last : Nat) (c : Cursor) :
    Except Stop (List String) :=
  match here c (focus g c) with
  | .error e => .error e
  | .ok none => .ok []
  | .ok (some label) =>
    match here c (span g c) with
    | .error e => .error e
    | .ok none => .error (.noSpan, c)
    | .ok (some (a, b)) =>
      let lead := Text.replicate indent "  "
      let before := if 0 < indent && first < a then [lead ++ wordsText spelling first (a - 1)] else []
      let title := lead ++ "<" ++ label ++ ">"
      let inside : Except Stop (List String) :=
        match _hd : down g c with
        | .error e => .error (e, c)
        | .ok (some inner) => lines g spelling (indent + 1) a b inner
        | .ok none => .ok [lead ++ "  " ++ wordsText spelling a b]
      match inside with
      | .error e => .error e
      | .ok inside =>
        match _hn : next g c with
        | .error e => .error (e, c)
        | .ok (some beside) =>
          match lines g spelling indent (b + 1) last beside with
          | .error e => .error e
          | .ok more => .ok (before ++ title :: inside ++ more)
        | .ok none =>
          let after :=
            if 0 < indent && b < last then [lead ++ wordsText spelling (b + 1) last] else []
          .ok (before ++ title :: inside ++ after)
termination_by extent g c
decreasing_by
  · exact extent_down _hd
  · exact extent_next _hn

end Cursor

end Utterance
