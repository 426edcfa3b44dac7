import Mathlib.Logic.Relation
import Utterance.AssocList.Build

/-!
# A cursor that is moved about

Entries can be collected by one cursor that is moved down into a node, on to the node beside it and up
again. A move on is not taken back, except that a move up leaves the place where it was made. Whatever
way the cursor takes through a tree, after each node it is back where it came in, so what it collects
is what the walk that never comes back collects, and from the root it returns to the root.
-/

namespace Utterance

namespace Cursor

variable {g : Grammar} {c c' inner last : Cursor}

/-! ## Back from below -/

/-- Only the root is looked at as a node; elsewhere it is a head that is looked at. -/
def Grounded : Cursor → Prop
  | [] => True
  | f :: rest => f.mark = 0 → rest = []

theorem grounded_root (t : Tree) : (root t).Grounded := fun _ => rfl

/-- A move on looks at the next head of the same node. -/
theorem next_eq_some (h : next g c = .ok (some c')) :
    ∃ node mark rest, c = ⟨node, mark + 1⟩ :: rest ∧ c' = ⟨node, mark + 2⟩ :: rest := by
  cases c with
  | nil => cases h
  | cons f rest =>
    obtain ⟨node, mark⟩ := f
    cases mark with
    | zero => cases h
    | succ mark =>
      simp only [next, Nat.add_one_ne_zero, if_false] at h
      split at h <;> cases h
      exact ⟨node, mark, rest, rfl, rfl⟩

/-- A move down looks at the first head of the root, or opens the part that the focus stands for. -/
theorem down_eq_some (h : down g c = .ok (some inner)) :
    (∃ node rest, c = ⟨node, 0⟩ :: rest ∧ inner = ⟨node, 1⟩ :: rest)
      ∨ ∃ part, c ≠ [] ∧ inner = ⟨part, 1⟩ :: c := by
  cases c with
  | nil => cases h
  | cons f rest =>
    obtain ⟨node, mark⟩ := f
    cases mark with
    -- below the root itself the same tree is looked at, below a part that part
    | zero =>
      simp only [down, if_true] at h
      split at h <;> cases h
      exact .inl ⟨node, rest, rfl, rfl⟩
    | succ mark =>
      simp only [down, Nat.add_one_ne_zero, if_false] at h
      split at h
      · cases h
      · cases h
      · cases h
      · rename_i part _ _
        split at h <;> cases h
        exact .inr ⟨part, List.cons_ne_nil _ _, rfl⟩

/-- A move on leads to a grounded cursor, from anywhere. -/
theorem Grounded.of_next (h : next g c = .ok (some c')) : c'.Grounded := by
  obtain ⟨node, mark, rest, _, rfl⟩ := next_eq_some h
  exact fun hmark => absurd hmark (Nat.add_one_ne_zero _)

/-- So does a move down. -/
theorem Grounded.of_down (h : down g c = .ok (some inner)) : inner.Grounded := by
  obtain ⟨node, rest, _, rfl⟩ | ⟨part, _, rfl⟩ := down_eq_some h
  · exact fun hmark => absurd hmark Nat.one_ne_zero
  · exact fun hmark => absurd hmark Nat.one_ne_zero

/-- The second cursor is reached from the first by moves on. -/
def Beside (g : Grammar) : Cursor → Cursor → Prop :=
  Relation.ReflTransGen fun c c' => next g c = .ok (some c')

/-- Moves on stay in the same node, whatever they pass by. -/
theorem Beside.exists_mark {node : Tree} {mark : Nat} {rest : Cursor}
    (h : Beside g (⟨node, mark + 1⟩ :: rest) last) :
    ∃ mark', last = ⟨node, mark' + 1⟩ :: rest := by
  induction h with
  | refl => exact ⟨mark, rfl⟩
  | tail _ hnext ih =>
    obtain ⟨mark', rfl⟩ := ih
    obtain ⟨_, _, _, hc, rfl⟩ := next_eq_some hnext
    cases hc
    exact ⟨mark' + 1, rfl⟩

/-- A move up takes back a move down with all the moves on that came after it. Where a cursor is
grounded, the node that is opened and the place in it can be told from where the cursor stands. -/
theorem up_of_beside (hc : c.Grounded) (hdown : down g c = .ok (some inner))
    (hbeside : Beside g inner last) : last.up = some c := by
  obtain ⟨node, rest, rfl, rfl⟩ | ⟨part, hne, rfl⟩ := down_eq_some hdown
  -- from the root only the mark moved
  · obtain ⟨mark, rfl⟩ := hbeside.exists_mark
    obtain rfl : rest = [] := hc rfl
    rfl
  -- elsewhere a frame was added, and moves on change nothing but that frame
  · obtain ⟨mark, rfl⟩ := hbeside.exists_mark
    cases c with
    | nil => exact absurd rfl hne
    | cons f rest => rfl

end Cursor

/-! ## Entries of a node -/

namespace AssocList

/-- The entry that opens a phrase, if the name of a node starts with a marker. -/
def opened (label : String) : List String := if isMarker label then [label] else []

/-- The bare marker that closes the phrase of a node. -/
def closed (closing : Bool) (label : String) : List String :=
  if closing && isMarker label then [String.ofList (label.toList.take 1)] else []

/-- What a node gives: its opening entry, what is inside, and its closing entry. -/
def enclose (closing : Bool) (label : String) (inside : List String) : List String :=
  opened label ++ inside ++ closed closing label

/-- The entry of a slot: carets at the start of its name are left out. -/
def slotEntry (label value : String) : String :=
  Text.trimStartWhile (· == '^') label ++ "=" ++ value

/-! ## Tours -/

section

variable (g : Grammar) (spelling : List String) (closing : Bool)

mutual

/-- `Visit c es c'`: the entries of the node at `c` are `es`, and a cursor that is moved to collect
them is at `c'` after it. -/
inductive Visit : Cursor → List String → Cursor → Prop where
  /-- A slot with words as its value. -/
  | words {c : Cursor} {label : String} {first last : Nat} (focus : c.focus g = .ok (some label))
      (slot : label.toList.any Text.isLower = false)
      (bare : label.toList.head? = some '^' ∨ c.down g = .ok none)
      (span : c.span g = .ok (some (first, last))) :
      Visit c (enclose closing label [slotEntry label (Cursor.wordsText spelling first last)]) c
  /-- A slot with the name of an inner node as its value. -/
  | name {c inner c' : Cursor} {label value : String} (focus : c.focus g = .ok (some label))
      (slot : label.toList.any Text.isLower = false) (caret : label.toList.head? ≠ some '^')
      (down : c.down g = .ok (some inner)) (named : inner.focus g = .ok (some value))
      (up : inner.up = some c') :
      Visit c (enclose closing label [slotEntry label value]) c'
  /-- A node that is no slot and has no inner nodes. -/
  | leaf {c : Cursor} {label : String} (focus : c.focus g = .ok (some label))
      (phrase : label.toList.any Text.isLower = true) (down : c.down g = .ok none) :
      Visit c (enclose closing label []) c
  /-- A node that is no slot, with its inner nodes. -/
  | inside {c inner last c' : Cursor} {label : String} {entries : List String}
      (focus : c.focus g = .ok (some label)) (phrase : label.toList.any Text.isLower = true)
      (down : c.down g = .ok (some inner)) (tour : Tour inner entries last)
      (up : last.up = some c') : Visit c (enclose closing label entries) c'

/-- `Tour c es last`: the entries of the node at `c` and of those that come after it beside it are `es`,
and a cursor that is moved to collect them ends at `last`. -/
inductive Tour : Cursor → List String → Cursor → Prop where
  | last {c c' : Cursor} {entries : List String} (visit : Visit c entries c')
      (next : c'.next g = .ok none) : Tour c entries c'
  | next {c c' beside last : Cursor} {entries more : List String} (visit : Visit c entries c')
      (next : c'.next g = .ok (some beside)) (tour : Tour beside more last) :
      Tour c (entries ++ more) last

end

end

variable {g : Grammar} {spelling : List String} {closing : Bool}

mutual

/-- After a node the cursor is back where it was. -/
theorem Visit.stays {c c' : Cursor} {entries : List String} (hc : c.Grounded) :
    Visit g spelling closing c entries c' → c' = c
  | .words .. => rfl
  | .leaf .. => rfl
  | .name _ _ _ down _ up => by
    rw [Cursor.up_of_beside hc down .refl] at up
    exact (Option.some.inj up).symm
  -- the tour goes along the parts of the node only, and from each of them the way up leads back
  | .inside _ _ down tour up => by
    have hbeside := tour.beside (Cursor.Grounded.of_down down)
    rw [Cursor.up_of_beside hc down hbeside] at up
    exact (Option.some.inj up).symm

/-- A tour ends beside the place where it starts. -/
theorem Tour.beside {c last : Cursor} {entries : List String} (hc : c.Grounded) :
    Tour g spelling closing c entries last → Cursor.Beside g c last
  | .last visit _ => by
    rw [visit.stays hc]
    exact .refl
  | .next visit next tour => by
    rw [visit.stays hc] at next
    exact .head next (tour.beside (Cursor.Grounded.of_next next))

end

/-! ## What a tour collects -/

/-- A list is its entries, each with a tab in front. -/
theorem text_ofEntries (entries : List String) :
    (ofEntries entries).text = String.join (entries.map ("\t" ++ ·)) := rfl

/-- So two lists are put together by putting their texts together. -/
theorem text_ofEntries_append (entries more : List String) :
    (ofEntries (entries ++ more)).text = (ofEntries entries).text ++ (ofEntries more).text := by
  rw [text_ofEntries, List.map_append, String.join_append]
  rfl

/-- The character that closes a phrase, where the name of a node opens one. -/
theorem marker_eq (label : String) :
    (label.toList.head?.filter isMarkerChar).map String.singleton
      = if isMarker label then some (String.ofList (label.toList.take 1)) else none := by
  unfold isMarker
  cases label.toList with
  | nil => rfl
  | cons d ds => cases hd : isMarkerChar d <;> simp [Option.filter, hd]

/-- The pieces between the opening and the closing of the node at `c`. -/
def insidePieces (g : Grammar) (spelling : List String) (closing : Bool) (label : String)
    (c : Cursor) : Except Cursor.Stop (List String) :=
  if !label.toList.any Text.isLower then
    let slot := "\t" ++ Text.trimStartWhile (· == '^') label ++ "="
    match if label.toList.head? == some '^' then .ok none else c.down g with
    | .error e => .error (e, c)
    | .ok (some inner) =>
      match Cursor.here inner (inner.focus g) with
      | .error e => .error e
      | .ok value => .ok [slot, value.getD ""]
    | .ok none =>
      match Cursor.here c (c.span g) with
      | .error e => .error e
      | .ok none => .error (.noSpan, c)
      | .ok (some (first, last)) => .ok [slot, Cursor.wordsText spelling first last]
  else
    match c.down g with
    | .error e => .error (e, c)
    | .ok (some inner) => nodePieces g spelling closing inner
    | .ok none => .ok []

/-- All pieces of a node, given those between its opening and its closing. -/
def enclosePieces (closing : Bool) (label : String) (inside : List String) : List String :=
  (opened label).map ("\t" ++ ·) ++ inside ++ (closed closing label).map ("\t" ++ ·)

theorem here_ok {α : Type} (c : Cursor) (x : α) : c.here (.ok x) = .ok x := rfl

/-- The pieces of a node are those around what is inside, and then those of the nodes beside it. An
error inside or beside it is passed on. -/
theorem nodePieces_def (g : Grammar) (spelling : List String) (closing : Bool) (c : Cursor) :
    nodePieces g spelling closing c
      = match Cursor.here c (c.focus g) with
        | .error e => .error e
        | .ok label =>
          match insidePieces g spelling closing (label.getD "") c with
          | .error e => .error e
          | .ok inside =>
            match c.next g with
            | .error e => .error (e, c)
            | .ok none => .ok (enclosePieces closing (label.getD "") inside)
            | .ok (some beside) => (nodePieces g spelling closing beside).map
              (enclosePieces closing (label.getD "") inside ++ ·) := by
  have hpieces : ∀ label inside, enclosePieces closing label inside
      = (if ((label.toList.head?.filter isMarkerChar).map String.singleton).isSome
          then ["\t" ++ label] else [])
        ++ inside
        ++ if closing then (((label.toList.head?.filter isMarkerChar).map String.singleton).map
          ("\t" ++ ·)).toList else [] := by
    intro label inside
    rw [marker_eq, enclosePieces, opened, closed]
    cases isMarker label <;> cases closing <;> rfl
  rw [nodePieces]
  rcases Cursor.here c (c.focus g) with e | label
  · rfl
  simp only [hpieces]
  -- the two sides tell the same cases apart, but by matches of their own, so `rw` does not see it
  cases hinside : insidePieces g spelling closing (label.getD "") c with
  | error e =>
    unfold insidePieces at hinside
    rcases hdown : c.down g with e | _ | inner <;> simp only [hdown] at hinside ⊢ <;> erw [hinside]
  | ok inside =>
    unfold insidePieces at hinside
    rcases hdown : c.down g with e | _ | inner <;> simp only [hdown] at hinside ⊢ <;> erw [hinside]
    all_goals
      rcases hnext : c.next g with e | _ | beside <;> simp only
      cases nodePieces g spelling closing beside <;> rfl

/-- The pieces of a node whose name and inside are known. -/
theorem nodePieces_eq {c : Cursor} {label : String} {inside : List String}
    (hfocus : c.focus g = .ok (some label))
    (hinside : insidePieces g spelling closing label c = .ok inside) :
    nodePieces g spelling closing c
      = match c.next g with
        | .error e => .error (e, c)
        | .ok none => .ok (enclosePieces closing label inside)
        | .ok (some beside) =>
          (nodePieces g spelling closing beside).map (enclosePieces closing label inside ++ ·) := by
  rw [nodePieces_def]
  simp only [hfocus, here_ok, Option.getD_some, hinside]

/-- The pieces around what is inside are the entries around it. -/
theorem join_enclosePieces {label : String} {inside entries : List String}
    (h : String.join inside = (ofEntries entries).text) :
    String.join (enclosePieces closing label inside)
      = (ofEntries (enclose closing label entries)).text := by
  rw [enclosePieces, enclose, text_ofEntries_append, text_ofEntries_append, String.join_append,
    String.join_append, h]
  rfl

/-- The pieces of a slot are its entry. -/
theorem join_slot (label value : String) :
    String.join ["\t" ++ Text.trimStartWhile (· == '^') label ++ "=", value]
      = (ofEntries [slotEntry label value]).text := by
  simp [text_ofEntries, slotEntry, String.append_assoc]

mutual

/-- What is inside a node gives the pieces of its entries. The cases are those of a visit; where it
goes inside, the tour there gives the pieces. -/
theorem Visit.exists_insidePieces {c c' : Cursor} {entries : List String} :
    Visit g spelling closing c entries c' →
      ∃ label inside, c.focus g = .ok (some label)
        ∧ insidePieces g spelling closing label c = .ok inside
        ∧ String.join (enclosePieces closing label inside) = (ofEntries entries).text
  | .words focus slot bare span => by
    refine ⟨_, _, focus, ?_, join_enclosePieces (join_slot _ _)⟩
    rcases bare with hcaret | hdown
    · simp [insidePieces, slot, hcaret, span, here_ok]
    · simp [insidePieces, slot, hdown, span, here_ok]
  | .name focus slot caret down named _ => by
    refine ⟨_, _, focus, ?_, join_enclosePieces (join_slot _ _)⟩
    simp [insidePieces, slot, caret, down, named, here_ok]
  | .leaf focus phrase down => by
    refine ⟨_, [], focus, ?_, join_enclosePieces rfl⟩
    simp [insidePieces, phrase, down]
  | .inside focus phrase down tour _ => by
    obtain ⟨inside, hinside, htext⟩ := tour.exists_nodePieces (Cursor.Grounded.of_down down)
    refine ⟨_, inside, focus, ?_, join_enclosePieces htext⟩
    simp [insidePieces, phrase, down, hinside]

/-- The walk gives the pieces of the entries that a tour collects. This and the lemma before are
proved together, as visits and tours are defined together. -/
theorem Tour.exists_nodePieces {c last : Cursor} {entries : List String} (hc : c.Grounded) :
    Tour g spelling closing c entries last →
      ∃ pieces, nodePieces g spelling closing c = .ok pieces
        ∧ String.join pieces = (ofEntries entries).text
  | .last visit next => by
    obtain ⟨label, inside, hfocus, hinside, htext⟩ := visit.exists_insidePieces
    rw [visit.stays hc] at next
    exact ⟨_, by rw [nodePieces_eq hfocus hinside, next], htext⟩
  | .next visit next tour => by
    obtain ⟨label, inside, hfocus, hinside, htext⟩ := visit.exists_insidePieces
    rw [visit.stays hc] at next
    obtain ⟨more, hmore, hrest⟩ := tour.exists_nodePieces (Cursor.Grounded.of_next next)
    refine ⟨enclosePieces closing label inside ++ more, ?_, ?_⟩
    · rw [nodePieces_eq hfocus hinside, next]
      simp only [hmore, Except.map]
    · rw [String.join_append, htext, hrest, text_ofEntries_append]

end

/-- The association list of a derivation has the entries that a tour from its root collects. -/
theorem Tour.build_eq {tree : Tree} {entries : List String} {last : Cursor}
    (h : Tour g spelling closing (.root tree) entries last) :
    build g spelling closing (.root tree) = .ok (ofEntries entries) := by
  obtain ⟨pieces, hpieces, htext⟩ := h.exists_nodePieces (Cursor.grounded_root tree)
  rw [build, hpieces, Except.map, htext]

end AssocList

end Utterance
