import Utterance.Proofs.AssocList.Entries
import Utterance.Proofs.Cursor.Outline
import Utterance.Proofs.Parse.Correctness

/-!
# Layouts of outlines

A derivation is shown row by row: each node has a row for its name, and what lies between the nodes
inside it, or all its words if there is none, has rows of words. The rows of names are the nodes in
preorder, two spaces deeper inside each node, and the rows of words have each word once, in order.
-/

namespace Utterance

/-! ## Rows -/

/-- A row: the name of a node, or the words from `first` to just before `stop`. -/
inductive Row where
  | title (depth : Nat) (label : String)
  | words (depth first stop : Nat)

namespace Row

/-- A row as a line. -/
def text (spelling : List String) : Row → String
  | title depth label => Text.replicate depth "  " ++ "<" ++ label ++ ">"
  | words depth first stop =>
    Text.replicate depth "  " ++ " ".intercalate ((spelling.take stop).drop first)

/-- Depth and name of a node. -/
def title? : Row → Option (Nat × String)
  | title depth label => some (depth, label)
  | words _ _ _ => none

/-- The positions of the words in a row. -/
def positions : Row → List Nat
  | title _ _ => []
  | words _ first stop => List.range' first (stop - first)

/-- The words in a row. -/
def shown (spelling : List String) : Row → List String
  | title _ _ => []
  | words _ first stop => (spelling.take stop).drop first

end Row

namespace Outline

mutual

/-- Depths and names of a node and all nodes inside, the parents first. -/
def preorder (depth : Nat) : Outline → List (Nat × String)
  | ⟨label, _, _, inner⟩ => (depth, label) :: preorders (depth + 1) inner

/-- Depths and names of several nodes and all nodes inside. -/
def preorders (depth : Nat) : List Outline → List (Nat × String)
  | [] => []
  | o :: rest => preorder depth o ++ preorders depth rest

end

/-- The row for words between nodes, if there are any. -/
def gap (depth first stop : Nat) : List Row := if first < stop then [.words depth first stop] else []

mutual

/-- The rows of a node. -/
def layout (depth : Nat) : Outline → List Row
  | ⟨label, start, stop, inner⟩ => .title depth label :: layoutInside (depth + 1) start stop inner

/-- The rows of the words from `first` to just before `stop` and of the nodes among them. -/
def layoutInside (depth first stop : Nat) : List Outline → List Row
  | [] => gap depth first stop
  | o :: rest => gap depth first o.start ++ layout depth o ++ layoutInside depth o.stop stop rest

end

/-! ## Each node has a row -/

/-- A gap has no names. -/
@[simp] theorem filterMap_title?_gap (depth first stop : Nat) :
    (gap depth first stop).filterMap Row.title? = [] := by
  unfold gap
  split <;> rfl

mutual

/-- The names among the rows are those of the nodes, parents first. -/
theorem filterMap_title?_layout (depth : Nat) (o : Outline) :
    (o.layout depth).filterMap Row.title? = o.preorder depth := by
  match o with
  | ⟨label, start, stop, inner⟩ =>
    rw [layout, preorder, List.filterMap_cons_some (by rfl),
      filterMap_title?_layoutInside (depth + 1) start stop inner]

/-- So they are among the rows inside a node. -/
theorem filterMap_title?_layoutInside (depth first stop : Nat) (os : List Outline) :
    (layoutInside depth first stop os).filterMap Row.title? = preorders depth os := by
  match os with
  | [] => rw [layoutInside, preorders, filterMap_title?_gap]
  | o :: rest =>
    rw [layoutInside, preorders, List.filterMap_append, List.filterMap_append,
      filterMap_title?_gap, List.nil_append, filterMap_title?_layout depth o,
      filterMap_title?_layoutInside depth o.stop stop rest]

end

/-! ## Each word has a row -/

/-- A gap shows the words that it covers, one by one. -/
theorem flatMap_positions_gap {first stop : Nat} (depth : Nat) :
    (gap depth first stop).flatMap Row.positions = List.range' first (stop - first) := by
  unfold gap
  split
  · simp [Row.positions]
  · rename_i hlt
    simp [Nat.sub_eq_zero_of_le (Nat.le_of_not_lt hlt)]

end Outline

variable {g : Grammar} {words spelling : List String}

/-- The parts of a node and the gaps between them take up its words one after the other. So each
word of a tree stands in one row, and the rows have the words in their order. -/
theorem Grammar.Expands.flatMap_positions (hg : g.Coherent) {steps : List Step} {pos stop : Nat}
    {parts : List Tree} (h : g.Expands words steps pos stop parts) {first : Nat}
    (hfirst : first ≤ pos) (depth : Nat) :
    (Outline.layoutInside depth first stop (Tree.outlinesOf g steps parts)).flatMap Row.positions
      = List.range' first (stop - first) := by
  -- `first` stays behind while words are passed, and catches up at each node
  induction h generalizing first depth with
  | nil pos => rw [Tree.outlinesOf_nil, Outline.layoutInside, Outline.flatMap_positions_gap]
  | word terminal _ _ _ ih =>
    rw [Tree.outlinesOf_terminal terminal]
    exact ih (Nat.le_succ_of_le hfirst) depth
  | @head _ _ pos mid stop _ _ _ _ nonterminal production _ _ inside rest ihInside ih =>
    have hmid := inside.lt hg production
    have hstop := rest.add_length_le hg
    rw [Tree.outlinesOf_nonterminal nonterminal, Outline.layoutInside, Outline.layout,
      Grammar.stepsAt_eq production]
    simp only [List.flatMap_append, List.flatMap_cons, Row.positions, List.nil_append,
      Outline.flatMap_positions_gap, ihInside (Nat.le_refl pos), ih (Nat.le_refl mid)]
    -- up to the node, then the node, then the others
    have hupTo : List.range' first (pos - first) ++ List.range' pos (mid - pos)
        = List.range' first (mid - first) := by
      have happend := @List.range'_append_1 first (pos - first) (mid - pos)
      rwa [show first + (pos - first) = pos by omega,
        show pos - first + (mid - pos) = mid - first by omega] at happend
    have happend := @List.range'_append_1 first (mid - first) (stop - mid)
    rwa [show first + (mid - first) = mid by omega,
      show mid - first + (stop - mid) = stop - first by omega, ← hupTo] at happend

/-- Every word of the sentence is shown once: before, between or behind the inner nodes, or inside
one of them. -/
theorem Outlined.flatMap_positions {tree : Tree} {o : Outline} (hg : g.Coherent)
    (h : Outlined g words tree o) (depth : Nat) :
    (o.layout depth).flatMap Row.positions = List.range' o.start (o.stop - o.start) := by
  obtain ⟨rule, p, parts, _, _, hexpands, hinner⟩ := h.exists_node
  obtain ⟨label, start, stop, inner⟩ := o
  subst hinner
  rw [Outline.layout, List.flatMap_cons, Row.positions, List.nil_append]
  exact hexpands.flatMap_positions hg (Nat.le_refl start) _

/-- The elements at consecutive positions. -/
theorem filterMap_getElem?_range' {α : Type} (xs : List α) (first n : Nat) :
    (List.range' first n).filterMap (xs[·]?) = (xs.drop first).take n := by
  induction n generalizing first with
  | zero => simp
  | succ n ih =>
    rw [List.range'_succ, List.filterMap_cons, ih]
    cases hx : xs[first]? with
    -- behind the end of the list there is nothing to take, however far the positions go
    | none =>
      rw [List.getElem?_eq_none_iff] at hx
      simp [List.drop_eq_nil_of_le hx, List.drop_eq_nil_of_le (Nat.le_succ_of_le hx)]
    | some x =>
      obtain ⟨hlt, rfl⟩ := List.getElem?_eq_some_iff.1 hx
      rw [List.drop_eq_getElem_cons hlt, List.take_succ_cons]

/-- A row shows the words at its positions. -/
theorem Row.shown_eq (row : Row) :
    row.shown spelling = row.positions.filterMap (spelling[·]?) := by
  cases row with
  | title => rfl
  | words depth first stop =>
    rw [shown, positions, filterMap_getElem?_range', List.drop_take]

/-- Rows with the positions of all words show the words in order. -/
theorem Row.flatMap_shown {rows : List Row} {n : Nat} (hn : spelling.length = n)
    (h : rows.flatMap Row.positions = List.range n) : rows.flatMap (Row.shown spelling) = spelling := by
  have hshown : rows.flatMap (Row.shown spelling)
      = (rows.flatMap Row.positions).filterMap (spelling[·]?) := by
    rw [List.filterMap_flatMap]
    exact List.flatMap_congr fun row _ => row.shown_eq
  rw [hshown, h, List.range_eq_range', filterMap_getElem?_range', List.drop_zero, ← hn,
    List.take_length]

/-! ## The walk through a derivation -/

namespace Cursor

variable {c : Cursor} {label : String} {indent first last a b : Nat}

/-- The lines inside a focus of the words `first` to `last`. -/
def linesInside (g : Grammar) (spelling : List String) (indent first last : Nat) (c : Cursor) :
    Except Stop (List String) :=
  match c.down g with
  | .error e => .error (e, c)
  | .ok (some inner) => lines g spelling (indent + 1) first last inner
  | .ok none => .ok [Text.replicate indent "  " ++ "  " ++ wordsText spelling first last]

/-- The lines after a focus whose last word is `first`, inside a node of the words up to `last`. -/
def linesAfter (g : Grammar) (spelling : List String) (indent first last : Nat) (c : Cursor) :
    Except Stop (List String) :=
  match c.next g with
  | .error e => .error (e, c)
  | .ok (some beside) => lines g spelling indent (first + 1) last beside
  | .ok none =>
    .ok (if 0 < indent && first < last then
      [Text.replicate indent "  " ++ wordsText spelling (first + 1) last] else [])

/-- Lines with those after a focus behind them. -/
theorem map_linesAfter (g : Grammar) (spelling : List String) (indent first last : Nat) (c : Cursor)
    (before : List String) :
    (linesAfter g spelling indent first last c).map (before ++ ·)
      = match _hn : c.next g with
        | .error e => .error (e, c)
        | .ok (some beside) =>
          match lines g spelling indent (first + 1) last beside with
          | .error e => .error e
          | .ok more => .ok (before ++ more)
        | .ok none => .ok (before ++ if 0 < indent && first < last then
          [Text.replicate indent "  " ++ wordsText spelling (first + 1) last] else []) := by
  unfold linesAfter
  rcases hnext : c.next g with e | _ | beside
  · rfl
  · rfl
  · simp only
    cases lines g spelling indent (first + 1) last beside <;> rfl

/-- The lines of a focus are its name, what is inside and what comes after, with the words before it
if there are any. -/
theorem lines_def (g : Grammar) (spelling : List String) (indent first last : Nat) (c : Cursor) :
    lines g spelling indent first last c
      = match here c (c.focus g) with
        | .error e => .error e
        | .ok none => .ok []
        | .ok (some label) =>
          match here c (c.span g) with
          | .error e => .error e
          | .ok none => .error (.noSpan, c)
          | .ok (some (a, b)) =>
            match linesInside g spelling indent a b c with
            | .error e => .error e
            | .ok inside => (linesAfter g spelling indent b last c).map fun after =>
              (if 0 < indent && first < a then
                  [Text.replicate indent "  " ++ wordsText spelling first (a - 1)] else [])
                ++ (Text.replicate indent "  " ++ "<" ++ label ++ ">") :: inside ++ after := by
  rw [lines]
  rcases here c (c.focus g) with e | _ | label
  · rfl
  · rfl
  rcases here c (c.span g) with e | _ | ⟨a, b⟩
  · rfl
  · rfl
  simp only [linesInside]
  rcases hdown : c.down g with e | _ | inner
  · rfl
  · exact (map_linesAfter g spelling indent b last c _).symm
  · simp only
    cases lines g spelling (indent + 1) a b inner with
    | error e => rfl
    | ok inside => exact (map_linesAfter g spelling indent b last c _).symm

/-- The rows of a cursor whose name, words and inside are known. -/
theorem lines_eq {inside after : List String} (hfocus : c.focus g = .ok (some label))
    (hspan : c.span g = .ok (some (a, b))) (hinside : linesInside g spelling indent a b c = .ok inside)
    (hafter : linesAfter g spelling indent b last c = .ok after) :
    lines g spelling indent first last c
      = .ok ((if 0 < indent && first < a then
            [Text.replicate indent "  " ++ wordsText spelling first (a - 1)] else [])
          ++ (Text.replicate indent "  " ++ "<" ++ label ++ ">") :: inside ++ after) := by
  rw [lines_def]
  simp only [hfocus, hspan, here, Except.mapError, hinside, hafter, Except.map]

/-- The first node without a small letter in its name inside a focus. -/
def majorInside (g : Grammar) (c : Cursor) : Except Stop (Option (String × Cursor)) :=
  match c.down g with
  | .error e => .error (e, c)
  | .ok (some inner) => findMajor g inner
  | .ok none => .ok none

/-- The first node without a small letter in its name after a focus and what is inside it. -/
def majorAfter (g : Grammar) (c : Cursor) : Except Stop (Option (String × Cursor)) :=
  match c.next g with
  | .error e => .error (e, c)
  | .ok (some beside) => findMajor g beside
  | .ok none => .ok none

/-- The first node without a small letter in its name is the focus, or inside it, or after it. -/
theorem findMajor_def (g : Grammar) (c : Cursor) :
    findMajor g c
      = match here c (c.focus g) with
        | .error e => .error e
        | .ok label =>
          match label.filter fun l => !l.toList.any Text.isLower with
          | some l => .ok (some (l, c))
          | none =>
            match majorInside g c with
            | .error e => .error e
            | .ok (some found) => .ok (some found)
            | .ok none => majorAfter g c := by
  rw [findMajor, majorInside, majorAfter]
  rcases hdown : c.down g with e | _ | inner <;> rcases hnext : c.next g with e' | _ | beside <;> rfl

/-- The search for a name, one node at a time. -/
theorem findMajor_eq {inside after : Option (String × Cursor)}
    (hfocus : c.focus g = .ok (some label)) (hinside : majorInside g c = .ok inside)
    (hafter : majorAfter g c = .ok after) :
    findMajor g c
      = .ok (if label.toList.any Text.isLower then inside.or after else some (label, c)) := by
  rw [findMajor_def]
  simp only [hfocus, here, Except.mapError, hinside, hafter]
  cases hlower : label.toList.any Text.isLower with
  | false => simp [Option.filter, hlower]
  | true => cases inside <;> simp [Option.filter, hlower]

end Cursor

/-! ## Rows of derivations -/

namespace Row

/-- An indent that is one deeper has one more step. -/
theorem replicate_succ (n : Nat) (s : String) :
    Text.replicate (n + 1) s = Text.replicate n s ++ s := by
  rw [Text.replicate, List.replicate_succ', String.join_append, Text.replicate]
  simp

/-- The text of a gap: nothing, or the words in one line. -/
theorem map_text_gap {depth first stop : Nat} :
    (Outline.gap depth first stop).map (text spelling)
      = if first < stop then
          [Text.replicate depth "  " ++ Cursor.wordsText spelling first (stop - 1)] else [] := by
  unfold Outline.gap
  split
  · rename_i hlt
    rw [AssocList.wordsText_eq hlt]
    rfl
  · rfl

end Row

namespace Cursor

variable {rule start stop pos indent : Nat} {p : Production} {steps : List Step} {parts : List Tree}
  {c : Cursor} {label : String}

/-- Inside a node are the rows of its parts, if a cursor below it shows them. -/
theorem linesInside_of_at (hc : c.At g label rule start stop parts)
    (hp : g.productions[rule]? = some p) (hlt : start < stop)
    (hbelow : ∀ inner : Cursor, inner.Ahead g p.steps parts →
      p.steps.find? (·.nonterminal) ≠ none → lines g spelling (indent + 1) start (stop - 1) inner
        = .ok ((Outline.layoutInside (indent + 1) start stop
          (Tree.outlinesOf g p.steps parts)).map (Row.text spelling))) :
    linesInside g spelling indent start (stop - 1) c
      = .ok ((Outline.layoutInside (indent + 1) start stop
        (Tree.outlinesOf g p.steps parts)).map (Row.text spelling)) := by
  obtain ⟨rest, hdown⟩ := hc.down
  rw [Grammar.stepsAt_eq hp] at hdown
  unfold linesInside
  cases hfind : p.steps.find? (·.nonterminal) with
  | none =>
    -- without heads all words of the node are in one row
    rw [hfind, Option.map_none] at hdown
    rw [Tree.outlinesOf_eq_nil hfind, Outline.layoutInside, Row.map_text_gap, if_pos hlt, hdown,
      Row.replicate_succ]
  | some step =>
    rw [hfind, Option.map_some] at hdown
    rw [hdown]
    exact hbelow _ (ahead_first hp parts rest) (by simp [hfind])

/-- A cursor before the parts of a node shows their rows. The recursion is on the parts: words are
passed over, and a part for a head shows its own rows before the cursor moves on. -/
theorem lines_of_ahead (hg : g.Coherent) (h : g.Expands words steps pos stop parts)
    (hc : c.Ahead g steps parts) (hsome : steps.find? (·.nonterminal) ≠ none) (indent first : Nat) :
    lines g spelling (indent + 1) first (stop - 1) c
      = .ok ((Outline.layoutInside (indent + 1) first stop (Tree.outlinesOf g steps parts)).map
          (Row.text spelling)) := by
  induction h generalizing c indent first with
  | nil pos => exact absurd rfl hsome
  | word terminal _ _ _ ih =>
    rw [Tree.outlinesOf_terminal terminal]
    apply ih (hc.skip terminal)
    rwa [List.find?_cons_of_neg (by simp [terminal])] at hsome
  | @head step steps pos mid stop rule p inner parts nonterminal production _ _ inside rest
      ihInside ih =>
    have hlt := inside.lt hg production
    have hmid : mid - 1 + 1 = mid := by omega
    have hat := hc.toAt nonterminal production
    -- the node is entered with its own first word, what comes after it starts where it stops
    have hinside := linesInside_of_at hat production hlt
      fun c' hc' hsome' => ihInside hc' hsome' (indent + 1) pos
    have hafter : linesAfter g spelling (indent + 1) (mid - 1) (stop - 1) c
        = .ok ((Outline.layoutInside (indent + 1) mid stop
          (Tree.outlinesOf g steps parts)).map (Row.text spelling)) := by
      obtain ⟨beside, hnext, hbeside⟩ := hc.next_eq nonterminal
      unfold linesAfter
      cases hfind : steps.find? (·.nonterminal) with
      | none =>
        rw [hfind, Option.map_none] at hnext
        -- bounds that include the last word leave a gap exactly if those that exclude it do
        have hgap : mid - 1 < stop - 1 ↔ mid < stop := by omega
        rw [hnext, Tree.outlinesOf_eq_nil hfind, Outline.layoutInside, Row.map_text_gap]
        simp [hgap, hmid]
      | some step' =>
        rw [hfind, Option.map_some] at hnext
        rw [hnext, hmid]
        exact ih hbeside (by simp [hfind]) indent mid
    rw [lines_eq hat.focus hat.span hinside hafter, Tree.outlinesOf_nonterminal nonterminal,
      Grammar.stepsAt_eq production, Outline.layoutInside, Outline.layout]
    simp [Row.map_text_gap, Row.text]

/-- From the root of a derivation, a cursor shows the rows of its outline. -/
theorem lines_root (hg : g.Coherent) {tree : Tree} {o : Outline}
    (hp : g.productions[rule]? = some p) (h : tree ∈ g.derivations words rule)
    (ho : tree.outline? g p.head = some o) (spelling : List String) :
    lines g spelling 0 0 0 (.root tree) = .ok ((o.layout 0).map (Row.text spelling)) := by
  obtain ⟨parts, rfl, hexpands, houtlined⟩ := Grammar.exists_parts_of_mem_derivations hp h p.head
  obtain rfl := Option.some.inj (houtlined.outline.symm.trans ho)
  have hat := @at_root g rule 0 words.length p hp parts
  have hinside : linesInside g spelling 0 0 (words.length - 1)
      (.root (.node rule 0 words.length parts))
        = .ok ((Outline.layoutInside 1 0 words.length
          (Tree.outlinesOf g p.steps parts)).map (Row.text spelling)) := by
    apply linesInside_of_at hat hp (hexpands.lt hg hp)
    exact fun c' hc' hsome => lines_of_ahead hg hexpands hc' hsome 0 0
  -- there is nothing beside the root
  have hafter : linesAfter g spelling 0 (words.length - 1) 0 (.root (.node rule 0 words.length parts))
      = .ok [] := rfl
  rw [lines_eq hat.focus hat.span hinside hafter, Outline.layout]
  simp [Row.text]

/-- A search finds the first of several names that have no small letter. -/
def Finds (found : Except Stop (Option (String × Cursor))) (names : List (Nat × String)) : Prop :=
  ∃ major, found = .ok major
    ∧ major.map Prod.fst = (names.map Prod.snd).find? fun l => !l.toList.any Text.isLower

/-- The search at a focus looks at its name, then at those inside and those after it. -/
theorem Finds.focus {inside after : List (Nat × String)} (hfocus : c.focus g = .ok (some label))
    (hinside : Finds (majorInside g c) inside) (hafter : Finds (majorAfter g c) after)
    (depth : Nat) : Finds (findMajor g c) ((depth, label) :: inside ++ after) := by
  obtain ⟨major, hmajor, hfound⟩ := hinside
  obtain ⟨major', hmajor', hfound'⟩ := hafter
  refine ⟨_, findMajor_eq hfocus hmajor hmajor', ?_⟩
  rw [List.cons_append, List.map_cons, List.map_append]
  cases hlower : label.toList.any Text.isLower with
  | false => simp [hlower]
  | true => simp [hlower, List.find?_append, ← hfound, ← hfound', Option.map_or]

/-- A search inside a node finds the first name among its parts, if a search from before the parts
does. -/
theorem finds_majorInside_of_at (hc : c.At g label rule start stop parts)
    (hp : g.productions[rule]? = some p) (depth : Nat)
    (hbelow : ∀ inner : Cursor, inner.Ahead g p.steps parts →
      p.steps.find? (·.nonterminal) ≠ none →
      Finds (findMajor g inner) (Outline.preorders depth (Tree.outlinesOf g p.steps parts))) :
    Finds (majorInside g c) (Outline.preorders depth (Tree.outlinesOf g p.steps parts)) := by
  obtain ⟨rest, hdown⟩ := hc.down
  rw [Grammar.stepsAt_eq hp] at hdown
  unfold majorInside
  cases hfind : p.steps.find? (·.nonterminal) with
  | none =>
    rw [hfind, Option.map_none] at hdown
    rw [Tree.outlinesOf_eq_nil hfind, Outline.preorders, hdown]
    exact ⟨none, rfl, rfl⟩
  | some step =>
    rw [hfind, Option.map_some] at hdown
    rw [hdown]
    exact hbelow _ (ahead_first hp parts rest) (by simp [hfind])

/-- A cursor before the parts of a node finds the first name among them and inside them. A part with
a name of its own ends the search; any other is searched before the cursor moves on. -/
theorem finds_of_ahead (h : g.Expands words steps pos stop parts) (hc : c.Ahead g steps parts)
    (hsome : steps.find? (·.nonterminal) ≠ none) (depth : Nat) :
    Finds (findMajor g c) (Outline.preorders depth (Tree.outlinesOf g steps parts)) := by
  induction h generalizing c depth with
  | nil pos => exact absurd rfl hsome
  | word terminal _ _ _ ih =>
    rw [Tree.outlinesOf_terminal terminal]
    apply ih (hc.skip terminal)
    rwa [List.find?_cons_of_neg (by simp [terminal])] at hsome
  | @head step steps pos mid stop rule p inner parts nonterminal production _ _ inside rest
      ihInside ih =>
    have hat := hc.toAt nonterminal production
    -- a search goes into this part first
    have hinside := finds_majorInside_of_at hat production (depth + 1)
      fun c' hc' hsome' => ihInside hc' hsome' (depth + 1)
    -- what comes after this part: nothing, if no head follows, and else what the rest holds
    have hafter : Finds (majorAfter g c)
        (Outline.preorders depth (Tree.outlinesOf g steps parts)) := by
      obtain ⟨beside, hnext, hbeside⟩ := hc.next_eq nonterminal
      unfold majorAfter
      cases hfind : steps.find? (·.nonterminal) with
      | none =>
        rw [hfind, Option.map_none] at hnext
        rw [Tree.outlinesOf_eq_nil hfind, Outline.preorders, hnext]
        exact ⟨none, rfl, rfl⟩
      | some step' =>
        rw [hfind, Option.map_some] at hnext
        rw [hnext]
        exact ih hbeside (by simp [hfind]) depth
    rw [Tree.outlinesOf_nonterminal nonterminal, Grammar.stepsAt_eq production, Outline.preorders,
      Outline.preorder]
    exact .focus hat.focus hinside hafter depth

/-- From the root a search finds the first name of the whole outline. -/
theorem finds_root {tree : Tree} {o : Outline} (hp : g.productions[rule]? = some p)
    (h : tree ∈ g.derivations words rule) (ho : tree.outline? g p.head = some o) :
    Finds (findMajor g (.root tree)) (o.preorder 0) := by
  obtain ⟨parts, rfl, hexpands, houtlined⟩ := Grammar.exists_parts_of_mem_derivations hp h p.head
  obtain rfl := Option.some.inj (houtlined.outline.symm.trans ho)
  have hat := @at_root g rule 0 words.length p hp parts
  have hinside := finds_majorInside_of_at hat hp 1
    fun c' hc' hsome => finds_of_ahead hexpands hc' hsome 1
  rw [Outline.preorder, ← List.append_nil (_ :: _)]
  exact .focus hat.focus hinside ⟨none, rfl, rfl⟩ 0

end Cursor

end Utterance
