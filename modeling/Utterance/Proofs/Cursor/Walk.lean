import Utterance.Proofs.Cursor.Outline
import Utterance.Proofs.Parse.Runs

/-!
# A cursor as a walker

A cursor keeps frames and marks: at the root the mark is zero, a part of the root is a mark on the frame
of the root, and every node further down has a frame of its own. All this stands for a place in the
outline of a candidate. A move goes to the node that is where the move leads, and if there is none it
changes nothing. Only a jump to a candidate that does not exist takes the cursor off the tree.
-/

namespace Utterance

/-! ## Walkers -/

/-- A move from one node to another. -/
inductive Move where
  /-- To the first node inside. -/
  | down
  /-- To the next node of the same parent. -/
  | next
  /-- To the parent. -/
  | up

/-- The place where a move leads, whether there is a node or not. Nothing is beside the root or above
it. -/
def Move.target : Move → List Nat → Option (List Nat)
  | .down, place => some (0 :: place)
  | .next, i :: place => some ((i + 1) :: place)
  | .up, _ :: place => some place
  | .next, [] => none
  | .up, [] => none

/-- A call to a cursor: to the root of a candidate, the selected one if no number is given, or a move. -/
inductive Steering where
  | top (candidate : Option Int)
  | move (m : Move)

/-- A place in an ordered tree. -/
structure Walker where
  tree : Outline
  place : List Nat

namespace Walker

/-- The node where a walker is. -/
def node? (w : Walker) : Option Outline := w.tree.at? w.place

/-- The walker where a move leads, if there is a node. -/
def move (w : Walker) (m : Move) : Option Walker :=
  (m.target w.place).bind fun place => (w.tree.at? place).map fun _ => { w with place }

/-- The walker after a call, if it is anywhere, and whether the call was possible. A move that is not
possible changes nothing. -/
def steer (outlines : Option Int → Option Outline) (w : Option Walker) :
    Steering → Option Walker × Bool
  | .top n => ((outlines n).map (⟨·, []⟩), (outlines n).isSome)
  | .move m =>
    match w.bind (·.move m) with
    | some w' => (some w', true)
    | none => (w, false)

/-- The walker after several calls. -/
def steerAll (outlines : Option Int → Option Outline) (w : Option Walker) (calls : List Steering) :
    Option Walker :=
  calls.foldl (fun w call => (steer outlines w call).1) w

/-- Name of the node where a walker is. -/
def focus (w : Option Walker) : Option String := (w.bind node?).map (·.label)

/-- First and last word of the node where a walker is. -/
def span (w : Option Walker) : Option (Nat × Nat) :=
  (w.bind node?).map fun o => (o.start, o.stop - 1)

end Walker

namespace Cursor

/-- The cursor after a move, if it is possible. -/
def move (g : Grammar) (c : Cursor) : Move → Except Fault (Option Cursor)
  | .down => c.down g
  | .next => c.next g
  | .up => .ok c.up

/-! ## Frames and places -/

/-- A derivation with the outline that has the head of its production as its name. -/
structure Rooted (g : Grammar) (words : List String) (tree : Tree) (whole : Outline) : Prop where
  outlined : Outlined g words tree whole
  focus : (root tree).focus g = .ok (some whole.label)

/-- A cursor stands at a place in the outline of a tree, where the given node with its own outline is. -/
inductive Stands (g : Grammar) (words : List String) (tree : Tree) (whole : Outline) :
    Cursor → List Nat → Tree → Outline → Prop where
  | root : Stands g words tree whole (.root tree) [] tree whole
  /-- A part of the root is a mark on the frame of the root. -/
  | first {i : Nat} {node : Tree} {o : Outline} (inner : whole.inner[i]? = some o)
      (part : part? g tree (i + 1) = .ok (some node)) (outlined : Outlined g words node o) :
      Stands g words tree whole [⟨tree, i + 1⟩] [i] node o
  /-- Further down, a frame for the parent comes before the frames of the place where the parent is. -/
  | deeper {c : Cursor} {i j : Nat} {place : List Nat} {parent node : Tree} {above o : Outline}
      (stands : Stands g words tree whole c (j :: place) parent above)
      (inner : above.inner[i]? = some o) (part : part? g parent (i + 1) = .ok (some node))
      (outlined : Outlined g words node o) :
      Stands g words tree whole (⟨parent, i + 1⟩ :: c) (i :: j :: place) node o

variable {g : Grammar} {words : List String} {tree node : Tree} {whole o : Outline} {c : Cursor}
  {i : Nat} {place : List Nat}

/-- The outline of a derivation that is named by its production starts at the root. -/
theorem exists_rooted {rule : Nat} {p : Production} (hp : g.productions[rule]? = some p)
    (htree : tree ∈ g.derivations words rule) :
    ∃ whole, tree.outline? g p.head = some whole ∧ Rooted g words tree whole := by
  obtain ⟨parts, rfl, _, houtlined⟩ := Grammar.exists_parts_of_mem_derivations hp htree p.head
  exact ⟨_, houtlined.outline, houtlined, (at_root hp parts).focus⟩

namespace Stands

/-- Where a cursor stands, the outline has its node. -/
theorem at?_eq (h : Stands g words tree whole c place node o) : whole.at? place = some o := by
  induction h with
  | root => rfl
  | first inner _ _ => exact inner
  | deeper _ inner _ _ ih => rw [Outline.at?_cons, ih, Option.bind_some, inner]

/-- What a cursor stands at is outlined by that node. -/
theorem outlined (hwhole : Rooted g words tree whole) (h : Stands g words tree whole c place node o) :
    Outlined g words node o := by
  cases h with
  | root => exact hwhole.outlined
  | first _ _ outlined => exact outlined
  | deeper _ _ _ outlined => exact outlined

/-- Except at the root, the first frame holds the parent and a mark for the node. Another mark stands
for another part of the same parent. -/
theorem exists_parent (hwhole : Rooted g words tree whole)
    (h : Stands g words tree whole c (i :: place) node o) :
    ∃ parent above rest, c = ⟨parent, i + 1⟩ :: rest ∧ whole.at? place = some above
      ∧ Outlined g words parent above ∧ part? g parent (i + 1) = .ok (some node)
      ∧ ∀ {k : Nat} {node' : Tree} {o' : Outline}, above.inner[k]? = some o' →
        part? g parent (k + 1) = .ok (some node') → Outlined g words node' o' →
        Stands g words tree whole (⟨parent, k + 1⟩ :: rest) (k :: place) node' o' := by
  cases h with
  | first inner part _ => exact ⟨tree, whole, [], rfl, rfl, hwhole.outlined, part, .first⟩
  | @deeper c _ j place parent _ above _ stands inner part _ =>
    exact ⟨parent, above, c, rfl, stands.at?_eq, stands.outlined hwhole, part, .deeper stands⟩

/-! ## Looking -/

/-- A cursor names the node that it stands at. The root is named by its production and every other
node by the head that it was derived for, and the outline has both. -/
theorem focus_eq (hwhole : Rooted g words tree whole)
    (h : Stands g words tree whole c place node o) : c.focus g = .ok (some o.label) := by
  cases place with
  | nil =>
    -- at the root there is no step that names the node, so it is named by its production
    cases h
    exact hwhole.focus
  | cons i place =>
    have hat := h.at?_eq
    obtain ⟨parent, above, rest, rfl, habove, houtlined, _⟩ := h.exists_parent hwhole
    rw [Outline.at?_cons, habove, Option.bind_some] at hat
    rw [focus, if_neg (Nat.add_one_ne_zero i), houtlined.label?_eq i, hat]
    rfl

/-- It tells the words that the node covers. -/
theorem span_eq (hwhole : Rooted g words tree whole)
    (h : Stands g words tree whole c place node o) :
    c.span g = .ok (some (o.start, o.stop - 1)) := by
  have hspan := (h.outlined hwhole).span?_eq
  cases place with
  | nil =>
    cases h
    rw [Cursor.root, span, if_pos rfl, hspan]
  | cons i place =>
    obtain ⟨parent, above, rest, rfl, _, _, hpart, _⟩ := h.exists_parent hwhole
    rw [span, if_neg (Nat.add_one_ne_zero i), hpart]
    simp only [Except.map, Option.bind_some, hspan]

/-! ## Moving -/

/-- Where a move from a place comes to: to another place where there is a node, or nowhere because there
is none. -/
inductive Lands (g : Grammar) (words : List String) (tree : Tree) (whole : Outline) :
    Except Fault (Option Cursor) → Option (List Nat) → Prop where
  | node {c : Cursor} {place : List Nat} {node : Tree} {o : Outline}
      (stands : Stands g words tree whole c place node o) :
      Lands g words tree whole (.ok (some c)) (some place)
  | none {target : Option (List Nat)} (missing : target.bind whole.at? = none) :
      Lands g words tree whole (.ok none) target

/-- A move down comes to the first inner node, if there is one. The cursor looks at a head in one of
two encodings, the node itself or a head in its parent, and opens it in both. -/
theorem lands_down (hwhole : Rooted g words tree whole)
    (h : Stands g words tree whole c place node o) :
    Lands g words tree whole (c.down g) (some (0 :: place)) := by
  have houtlined := h.outlined hwhole
  have hat : whole.at? (0 :: place) = o.inner[0]? := by
    rw [Outline.at?_cons, h.at?_eq, Option.bind_some]
  have hlabel := houtlined.label?_eq 0
  cases hinner : o.inner[0]? with
  | none =>
    rw [hinner] at hat hlabel
    -- in both encodings the step is not taken without a label
    have hdown : c.down g = .ok none := by
      cases place with
      | nil =>
        cases h
        simp only [Cursor.root, down, hlabel, Option.map_none, if_true]
      | cons i place =>
        obtain ⟨parent, above, rest, rfl, _, _, hpart, _⟩ := h.exists_parent hwhole
        obtain ⟨rule, p, parts, rfl, _⟩ := houtlined.exists_node
        rw [down, if_neg (Nat.add_one_ne_zero i), hpart]
        simp only [hlabel, Option.map_none]
    rw [hdown]
    exact .none hat
  | some o' =>
    -- there is a label, and so there is a part, which the cursor is put on
    rw [hinner, Option.map_some] at hlabel
    obtain ⟨part, hpart', hinside⟩ := houtlined.exists_part? hinner
    cases place with
    | nil =>
      cases h
      simp only [Cursor.root, down, hlabel, if_true]
      exact .node (.first hinner hpart' hinside)
    | cons i place =>
      have hdeeper := Stands.deeper h hinner hpart' hinside
      obtain ⟨parent, above, rest, rfl, _, _, hpart, _⟩ := h.exists_parent hwhole
      obtain ⟨rule, p, parts, rfl, _⟩ := houtlined.exists_node
      rw [down, if_neg (Nat.add_one_ne_zero i), hpart]
      simp only [hlabel]
      exact .node hdeeper

/-- A move on comes to the next node beside, if there is one. The root has nothing beside it, and
any other node has what its parent shows behind it. -/
theorem lands_next (hwhole : Rooted g words tree whole)
    (h : Stands g words tree whole c place node o) :
    Lands g words tree whole (c.next g) (Move.target .next place) := by
  cases place with
  | nil =>
    cases h
    exact .none rfl
  | cons i place =>
    obtain ⟨parent, above, rest, rfl, habove, houtlined, _, hbeside⟩ := h.exists_parent hwhole
    have hlabel := houtlined.label?_eq (i + 1)
    rw [next, if_neg (Nat.add_one_ne_zero i), hlabel]
    cases hinner : above.inner[i + 1]? with
    | none =>
      apply Lands.none
      rw [Move.target, Option.bind_some, Outline.at?_cons, habove, Option.bind_some, hinner]
    | some o' =>
      obtain ⟨part, hpart, hinside⟩ := houtlined.exists_part? hinner
      exact .node (hbeside hinner hpart hinside)

/-- A move up comes to the parent, if there is one. -/
theorem lands_up (h : Stands g words tree whole c place node o) :
    Lands g words tree whole (.ok c.up) (Move.target .up place) := by
  cases h with
  | root => exact .none rfl
  -- a part of the root is a mark on the root's own frame, and going up sets the mark back to zero
  | first _ _ _ => exact .node .root
  | @deeper c _ _ _ _ _ _ _ stands _ _ _ =>
    -- dropping a frame leaves the frames of the parent's place, which are never none
    have hfilled : ∃ f rest, c = f :: rest := by
      cases stands <;> exact ⟨_, _, rfl⟩
    obtain ⟨f, rest, rfl⟩ := hfilled
    exact .node stands

/-- All three moves come to where a walker comes. -/
theorem lands (hwhole : Rooted g words tree whole)
    (h : Stands g words tree whole c place node o) (m : Move) :
    Lands g words tree whole (c.move g m) (m.target place) := by
  cases m with
  | down => exact h.lands_down hwhole
  | next => exact h.lands_next hwhole
  | up => exact h.lands_up

end Stands

/-! ## Cursors and walkers -/

/-- A cursor and a walker are at the same place, or both are nowhere. -/
inductive Follows (g : Grammar) (words : List String) : Cursor → Option Walker → Prop where
  | nowhere : Follows g words [] none
  | somewhere {tree node : Tree} {whole o : Outline} {c : Cursor} {place : List Nat}
      (rooted : Rooted g words tree whole) (stands : Stands g words tree whole c place node o) :
      Follows g words c (some ⟨whole, place⟩)

namespace Follows

variable {w : Option Walker}

/-- A cursor and a walker that are together name the same node. -/
theorem focus_eq (h : Follows g words c w) : c.focus g = .ok (Walker.focus w) := by
  cases h with
  | nowhere => rfl
  | somewhere rooted stands =>
    rw [stands.focus_eq rooted, Walker.focus, Option.bind_some, Walker.node?, stands.at?_eq,
      Option.map_some]

/-- They tell the same words. -/
theorem span_eq (h : Follows g words c w) : c.span g = .ok (Walker.span w) := by
  cases h with
  | nowhere => rfl
  | somewhere rooted stands =>
    rw [stands.span_eq rooted, Walker.span, Option.bind_some, Walker.node?, stands.at?_eq,
      Option.map_some]

/-- A cursor moves if the walker does, and to the same place. -/
theorem move (h : Follows g words c w) (m : Move) :
    (∃ c' w', c.move g m = .ok (some c') ∧ w.bind (·.move m) = some w'
        ∧ Follows g words c' (some w'))
      ∨ c.move g m = .ok none ∧ w.bind (·.move m) = none := by
  cases h with
  | nowhere => cases m <;> exact .inr ⟨rfl, rfl⟩
  | @somewhere tree node whole o c place rooted stands =>
    have hlands := stands.lands rooted m
    rw [Option.bind_some, Walker.move]
    -- `Lands` has an index for each side, so both are made variables before it is taken apart
    generalize c.move g m = moved at hlands
    generalize m.target place = target at hlands
    cases hlands with
    | @node c' place' node' o' stands' =>
      refine .inl ⟨c', ⟨whole, place'⟩, rfl, ?_, .somewhere rooted stands'⟩
      rw [Option.bind_some, stands'.at?_eq, Option.map_some]
    | none missing =>
      refine .inr ⟨rfl, ?_⟩
      cases target with
      | none => rfl
      | some place' =>
        rw [Option.bind_some] at missing ⊢
        rw [missing, Option.map_none]

end Follows

end Cursor

/-! ## Calls after a parse -/

namespace Analysis

/-- A call to the cursor of an analysis. The result tells whether it was possible. -/
def steer (g : Grammar) (a : Analysis) : Steering → Outcome Analysis Bool
  | .top n => ⟨(a.top n).1, .ok (a.top n).2, []⟩
  | .move .down => a.down g
  | .move .next => a.next g
  | .move .up => a.up

/-- The analysis after several calls to its cursor. -/
def steerAll (g : Grammar) (a : Analysis) (calls : List Steering) : Analysis :=
  calls.foldl (fun a call => (a.steer g call).state) a

/-- The outline of a candidate, of the selected one if no number is given. -/
def outline? (g : Grammar) (a : Analysis) (n : Option Int) : Option Outline :=
  (a.candidate? n).bind fun s =>
    (g.productions[s.item.rule]?).bind fun p => (a.chart.tree s).outline? g p.head

variable {g : Grammar} {words : List String} {a : Analysis} {c : Cursor} {w : Option Walker}

theorem steer_move (g : Grammar) (a : Analysis) (m : Move) :
    a.steer g (.move m) = a.afterMove (a.cursor.move g m) := by
  cases m <;> rfl

/-- The candidates of an analysis stand for derivations of all its words. -/
def Derives (g : Grammar) (words : List String) (a : Analysis) : Prop :=
  ∀ n s, a.candidate? n = some s → a.chart.tree s ∈ g.derivations words s.item.rule

/-- Every candidate has an outline, with the head of its production as the name. -/
theorem Derives.exists_outline (h : a.Derives g words) {n : Option Int} {s : ChartState}
    (hs : a.candidate? n = some s) :
    ∃ p o, g.productions[s.item.rule]? = some p ∧ (a.chart.tree s).outline? g p.head = some o
      ∧ a.outline? g n = some o ∧ Cursor.Rooted g words (a.chart.tree s) o := by
  obtain ⟨p, _, hp, _, _⟩ := Grammar.exists_of_mem_derivations (h n s hs)
  obtain ⟨o, houtline, hrooted⟩ := Cursor.exists_rooted hp (h n s hs)
  refine ⟨p, o, hp, houtline, ?_, hrooted⟩
  rw [outline?, hs, Option.bind_some, hp, Option.bind_some, houtline]

/-- After one call the cursor is where the walker is, and the result is the same. If the call asks
for a candidate that is not there, both are nowhere afterwards. -/
theorem Derives.steer (h : a.Derives g words) (hfollows : c.Follows g words w) (call : Steering) :
    ∃ c', ({ a with cursor := c }.steer g call).state = { a with cursor := c' }
      ∧ c'.Follows g words (Walker.steer (a.outline? g) w call).1
      ∧ ({ a with cursor := c }.steer g call).result
        = .ok (Walker.steer (a.outline? g) w call).2 := by
  cases call with
  | top n =>
    have hcandidate : { a with cursor := c }.candidate? n = a.candidate? n := rfl
    simp only [Analysis.steer, top, hcandidate, Walker.steer]
    -- without such a candidate the walk is nowhere, and else at the root of its tree
    cases hs : a.candidate? n with
    | none =>
      have houtline : a.outline? g n = none := by rw [outline?, hs, Option.bind_none]
      rw [houtline]
      exact ⟨[], rfl, .nowhere, rfl⟩
    | some s =>
      obtain ⟨p, o, _, _, houtline, hrooted⟩ := h.exists_outline hs
      rw [houtline]
      exact ⟨.root (a.chart.tree s), rfl, .somewhere hrooted .root, rfl⟩
  | move m =>
    rw [steer_move, Walker.steer]
    rcases hfollows.move m with ⟨c', w', hc, hw, hfollows'⟩ | ⟨hc, hw⟩
    · simp only [hc, hw]
      exact ⟨c', rfl, hfollows', rfl⟩
    · simp only [hc, hw]
      exact ⟨c, rfl, hfollows, rfl⟩

/-- After several calls as well. -/
theorem Derives.steerAll (h : a.Derives g words) (hfollows : c.Follows g words w)
    (calls : List Steering) :
    ∃ c', { a with cursor := c }.steerAll g calls = { a with cursor := c' }
      ∧ c'.Follows g words (Walker.steerAll (a.outline? g) w calls) := by
  -- the analysis but for its cursor stays as it is, so `h` serves for every call
  induction calls generalizing c w with
  | nil => exact ⟨c, rfl, hfollows⟩
  | cons call calls ih =>
    obtain ⟨c', hstate, hfollows', _⟩ := h.steer hfollows call
    obtain ⟨c'', hstates, hfollows''⟩ := ih hfollows'
    refine ⟨c'', ?_, hfollows''⟩
    rw [Analysis.steerAll, List.foldl_cons, hstate]
    exact hstates

theorem candidate?_neg (a : Analysis) {k : Int} (hk : k < 0) : a.candidate? (some k) = none := by
  simp [candidate?, Int.not_le.2 hk]

theorem candidate?_none (a : Analysis) :
    a.candidate? none
      = a.selected.bind fun i => a.candidates[i]?.bind (a.chart.states[·]?) := rfl

/-- A candidate is one of the states that were found, whether it is asked for by its number or taken
as the selected one. -/
theorem exists_id_of_candidate? {n : Option Int} {s : ChartState} (h : a.candidate? n = some s) :
    ∃ id ∈ a.candidates, a.chart.states[id]? = some s := by
  have hplace : ∃ i : Nat, a.candidates[i]?.bind (a.chart.states[·]?) = some s := by
    cases n with
    | none =>
      rw [candidate?_none] at h
      obtain ⟨i, _, hs⟩ := Option.bind_eq_some_iff.1 h
      exact ⟨i, hs⟩
    | some k =>
      rcases lt_or_ge k 0 with hk | hk
      · rw [candidate?_neg a hk] at h
        cases h
      · obtain ⟨i, rfl⟩ := Int.eq_ofNat_of_zero_le hk
        exact ⟨i, by rw [← candidate?_natCast]; exact h⟩
  obtain ⟨i, hs⟩ := hplace
  obtain ⟨id, hid, hs⟩ := Option.bind_eq_some_iff.1 hs
  exact ⟨id, List.mem_of_getElem? hid, hs⟩

/-- The candidates of a sentence that parses stand for derivations of its words. Their trees are
read back from the chart by their pointers. -/
theorem derives_parse (hg : g.Coherent) {sentence : Sentence} {conf : Confidence}
    (hne : (parse g sentence conf).state.candidates ≠ []) :
    (parse g sentence conf).state.Derives g sentence.toWords := by
  have hcharted := charted_of_candidates hg hne
  intro n s hs
  obtain ⟨id, hid, hs⟩ := exists_id_of_candidate? hs
  rw [hcharted.candidates, mem_covering] at hid
  obtain ⟨s', hs', hcovers⟩ := hid
  rw [hs, Option.some.injEq] at hs'
  subst hs'
  rw [hcharted.chart] at hs ⊢
  exact mem_derivations_of_covers hg hs hcovers

/-- There is an outline just where there is a candidate. -/
theorem Derives.isSome_outline? (h : a.Derives g words) (n : Option Int) :
    (a.outline? g n).isSome = (a.candidate? n).isSome := by
  cases hs : a.candidate? n with
  | none => rw [outline?, hs, Option.bind_none, Option.isSome_none, Option.isSome_none]
  | some s =>
    obtain ⟨_, _, _, _, houtline, _⟩ := h.exists_outline hs
    rw [houtline, Option.isSome_some, Option.isSome_some]

/-- After a parse there is a candidate for each number below the count of them, and a selected one. -/
theorem isSome_candidate? (hg : g.Coherent) {sentence : Sentence} {conf : Confidence}
    (hne : (parse g sentence conf).state.candidates ≠ []) (n : Option Int) :
    ((parse g sentence conf).state.candidate? n).isSome
      ↔ ∀ k ∈ n, 0 ≤ k ∧ k < (parse g sentence conf).state.candidates.length := by
  cases n with
  | none =>
    obtain ⟨s, hs⟩ := exists_selected hg hne
    simp [hs.candidate]
  | some k =>
    -- candidates are asked for by integers, and a negative one is refused
    rcases lt_or_ge k 0 with hk | hk
    · simp [candidate?_neg _ hk, hk]
    · obtain ⟨i, rfl⟩ := Int.eq_ofNat_of_zero_le hk
      rcases Nat.lt_or_ge i (parse g sentence conf).state.candidates.length with hi | hi
      · obtain ⟨s, hs, _⟩ := exists_candidate hg hi
        simp [hs, hi]
      · simp [candidate?_natCast, hi]

end Analysis

/-! ## The walk of a cursor -/

/-- Every place in an outline is a node of the derivation. -/
theorem Outlined.exists_node_at {g : Grammar} {words : List String} {tree : Tree} {whole : Outline}
    (h : Outlined g words tree whole) (place : List Nat) {o : Outline}
    (ho : whole.at? place = some o) : ∃ node, Outlined g words node o := by
  induction place generalizing o with
  | nil =>
    rw [Outline.at?_nil, Option.some.injEq] at ho
    subst ho
    exact ⟨tree, h⟩
  | cons i place ih =>
    rw [Outline.at?_cons] at ho
    obtain ⟨above, habove, hi⟩ := Option.bind_eq_some_iff.1 ho
    obtain ⟨parent, hparent⟩ := ih habove
    obtain ⟨node, _, hnode⟩ := hparent.exists_part? hi
    exact ⟨node, hnode⟩

namespace Analysis

/-- After a parse that found candidates, the cursor walks through their derivations. The outline of a
candidate is the ordered tree of its nodes, each over one word at least. Whatever calls were made, the
cursor shows the name and the words of the node where a walker would be, and the result of a further
call tells whether it is possible: a jump if there is such a candidate, a move if there is a node where
it leads. A move that is not possible leaves the walker where it is, a jump to no candidate takes it off
the tree. -/
theorem cursor_walks {g : Grammar} (hg : g.Built) (status : Nat → Status) (sentence : Sentence)
    (conf : Confidence)
    (hparses : (parse (g.withStatuses status) sentence conf).state.candidates ≠ []) :
    let grammar := g.withStatuses status
    let a := (parse grammar sentence conf).state
    let outlines := a.outline? grammar
    (∀ n, (outlines n).isSome ↔ ∀ k ∈ n, 0 ≤ k ∧ k < a.candidates.length)
      ∧ (∀ n s, a.candidate? n = some s → ∃ p o, grammar.productions[s.item.rule]? = some p
        ∧ a.chart.tree s ∈ grammar.derivations sentence.toWords s.item.rule
        ∧ (a.chart.tree s).outline? grammar p.head = some o ∧ outlines n = some o)
      ∧ (∀ n whole place o, outlines n = some whole → whole.at? place = some o →
        o.start < o.stop ∧ o.stop ≤ sentence.toWords.length)
      ∧ ∀ calls : List Steering,
        let w := Walker.steerAll outlines ((outlines none).map (⟨·, []⟩)) calls
        let b := a.steerAll grammar calls
        b.cursor.focus grammar = .ok (Walker.focus w)
          ∧ b.cursor.span grammar = .ok (Walker.span w)
          ∧ ∀ call, (b.steer grammar call).result = .ok (Walker.steer outlines w call).2 := by
  intro grammar a outlines
  have hcoherent : grammar.Coherent := hg.coherent.withStatuses status
  have hderives : a.Derives grammar sentence.toWords := derives_parse hcoherent hparses
  refine ⟨fun n => ?_, fun n s hs => ?_, fun n whole place o hwhole ho => ?_, fun calls => ?_⟩
  · rw [hderives.isSome_outline? n]
    exact isSome_candidate? hcoherent hparses n
  -- a candidate has a production and a derivation, and the outline is read off the two
  · obtain ⟨p, o, hp, houtline, houtlines, _⟩ := hderives.exists_outline hs
    exact ⟨p, o, hp, hderives n s hs, houtline, houtlines⟩
  · obtain ⟨s, hs, _⟩ := Option.bind_eq_some_iff.1 hwhole
    obtain ⟨_, o', _, _, houtlines, hrooted⟩ := hderives.exists_outline hs
    obtain rfl : o' = whole := Option.some.inj (houtlines.symm.trans hwhole)
    obtain ⟨node, hnode⟩ := hrooted.outlined.exists_node_at place ho
    exact ⟨hnode.start_lt_stop hcoherent, hnode.stop_le hcoherent⟩
  -- a parse leaves the cursor at the root of the selected derivation, where the walker starts
  · obtain ⟨s, hs⟩ := exists_selected hcoherent hparses
    obtain ⟨_, o, _, _, houtlines, hrooted⟩ := hderives.exists_outline hs.candidate
    have hstart : a.cursor.Follows grammar sentence.toWords ((outlines none).map (⟨·, []⟩)) := by
      rw [hs.cursor, show outlines none = some o from houtlines, Option.map_some]
      exact .somewhere hrooted .root
    obtain ⟨c, hstate, hfollows⟩ := hderives.steerAll hstart calls
    simp only
    rw [show a.steerAll grammar calls = { a with cursor := c } from hstate]
    refine ⟨hfollows.focus_eq, hfollows.span_eq, fun call => ?_⟩
    obtain ⟨_, _, _, hresult⟩ := hderives.steer hfollows call
    exact hresult

/-- In an outing the cursor goes down to the slot, beside which there is nothing. -/
theorem cursor_walks_outing :
    let a := (parse topOutings (.text "Go home") .absent).state
    let b := a.steerAll topOutings [.move .down]
    a.candidates ≠ [] ∧ b.cursor.focus topOutings = .ok (some "PLACE")
      ∧ b.cursor.span topOutings = .ok (some (1, 1))
      ∧ (b.steer topOutings (.move .next)).result = .ok false := by
  intro a b
  obtain ⟨_, houtlines, _, hwalk⟩ :=
    cursor_walks built_outings (fun _ => .top) (.text "Go home") .absent candidates_topOutings
  obtain ⟨s, hs, hp, htree⟩ := exists_selected_phrase toWords_outing
  obtain ⟨p, o, hp', _, houtline, ho⟩ := houtlines none s hs.candidate
  obtain rfl := Option.some.inj (hp.symm.trans hp')
  rw [htree, outline?_outing, Option.some.injEq] at houtline
  obtain ⟨hfocus, hspan, hresult⟩ := hwalk [.move .down]
  have hnext := hresult (.move .next)
  simp only [ho, ← houtline] at hfocus hspan hnext
  exact ⟨candidates_topOutings, hfocus, hspan, hnext⟩

/-- An outing has one candidate, since no two candidates have one rule and only one rule derives it. -/
theorem length_candidates_outing :
    (parse topOutings (.text "Go home") .absent).state.candidates.length = 1 := by
  have hcoherent : topOutings.Coherent := built_outings.coherent.withStatuses _
  have hcharted := charted_of_candidates hcoherent candidates_topOutings
  rw [← hcharted.length_rules]
  have hrules : ∀ rule ∈ (parse topOutings (.text "Go home") .absent).state.rules, rule = 0 := by
    intro rule hrule
    obtain ⟨_, tree, htree⟩ := (hcharted.mem_rules hcoherent).1 hrule
    rw [toWords_outing] at htree
    exact (mem_derivations_topOutings.1 htree).1
  -- no rule has two candidates, and all of them have the same rule
  have hreplicate := List.eq_replicate_iff.2 ⟨rfl, hrules⟩
  have hnodup := hcharted.nodup_rules hcoherent
  rw [hreplicate, List.nodup_replicate, hcharted.length_rules] at hnodup
  have hpos := List.length_pos_of_ne_nil candidates_topOutings
  rw [hcharted.length_rules]
  omega

/-- A jump to a candidate that does not exist is not possible, and does not leave the cursor where it
was. -/
theorem top_leaves_tree :
    let a := (parse topOutings (.text "Go home") .absent).state
    a.candidates ≠ [] ∧ a.cursor.focus topOutings = .ok (some "!go")
      ∧ (a.steer topOutings (.top (some 5))).result = .ok false
      ∧ (a.steer topOutings (.top (some 5))).state.cursor.focus topOutings = .ok none := by
  intro a
  obtain ⟨s, hs, hp, htree⟩ := exists_selected_phrase toWords_outing
  have hfocus : a.cursor.focus topOutings = .ok (some "!go") := by
    rw [hs.cursor]
    obtain ⟨o, houtline, hrooted⟩ := Cursor.exists_rooted hp hs.derives
    rw [htree, outline?_outing, Option.some.injEq] at houtline
    rw [hrooted.focus, ← houtline]
  -- there is one candidate, so none has the number five
  have hmissing : a.candidate? (some 5) = none := by
    rw [show (5 : Int) = (5 : Nat) from rfl, candidate?_natCast,
      List.getElem?_eq_none (by rw [length_candidates_outing]; omega), Option.bind_none]
  have hsteer : a.steer topOutings (.top (some 5)) = ⟨{ a with cursor := [] }, .ok false, []⟩ := by
    simp only [steer, top, hmissing]
  refine ⟨candidates_topOutings, hfocus, ?_, ?_⟩
  · rw [hsteer]
  · rw [hsteer]
    rfl

end Analysis

end Utterance
