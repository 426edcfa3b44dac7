import Utterance.Proofs.AssocList.Omission
import Utterance.Proofs.Cursor.Outline
import Utterance.Proofs.Grammar.Retraction

/-!
# Entries and nodes

What each node of an outline shows in the association list: its name if that starts with a marker
character, and a pair of its name and its value if it is a slot. The list has nothing else but bare
markers, in the order of the nodes. Whether an entry is a pair, a marker or a bare marker is told later
from its characters only. So the pairs of the list are those of its slots, and its markers with a name
are those of its phrases, exactly if no name misleads: a slot that starts with a marker character gives
two markers, and one with an equals sign in its name is split at the wrong place.
-/

namespace Utterance

/-! ## What a node shows -/

namespace AssocList

/-- Whether an entry marks a phrase by name, and so opens one. -/
def isOpening (entry : String) : Bool := isMarker entry && decide (1 < entry.length)

end AssocList

namespace Outline

/-- Whether a node is a slot: there is no small letter in its name. -/
def isSlot (o : Outline) : Bool := !o.label.toList.any Text.isLower

/-- Name of a slot: carets at its start are left out. -/
def slotName (o : Outline) : String := Text.trimStartWhile (· == '^') o.label

/-- Value of a slot: the name of its first inner node, or its words if there is none or a caret says
so. -/
def value (spelling : List String) (o : Outline) : String :=
  match o.inner.head? with
  | some inner =>
    if o.label.toList.head? = some '^' then " ".intercalate ((spelling.take o.stop).drop o.start)
    else inner.label
  | none => " ".intercalate ((spelling.take o.stop).drop o.start)

/-- The entries that a node shows: its marker, and its pair if it is a slot. -/
def shown (spelling : List String) (o : Outline) : List String :=
  AssocList.opened o.label
    ++ if o.isSlot then [AssocList.slotEntry o.label (o.value spelling)] else []

mutual

/-- The nodes that a walk comes to, the parents first: it does not go into slots. -/
def reached : Outline → List Outline
  | ⟨label, start, stop, inner⟩ =>
    ⟨label, start, stop, inner⟩ :: if label.toList.any Text.isLower then reachedAll inner else []

/-- The nodes that a walk comes to in several outlines. -/
def reachedAll : List Outline → List Outline
  | [] => []
  | o :: rest => reached o ++ reachedAll rest

end

/-- A node whose entries show what it is. The name of a slot does not start with a marker character, and
there is no equals sign and no tab in it; the name of a phrase has no tab and no space at its end. -/
structure Legible (o : Outline) : Prop where
  slot : o.isSlot = true →
    AssocList.isMarker o.slotName = false ∧ '=' ∉ o.slotName.toList ∧ '\t' ∉ o.slotName.toList
  phrase : AssocList.isMarker o.label = true → AssocList.Clean o.label

end Outline

/-- A list tells nodes apart: its pairs are the slots, in order, with their names and values, and its
markers with a name are the phrases, in order. -/
structure AssocList.Shows (alist : AssocList) (spelling : List String) (nodes : List Outline) :
    Prop where
  pairs : (alist.entries.filter isPair).map splitPair
    = (nodes.filter (·.isSlot)).map fun n => (n.slotName, n.value spelling)
  openings : alist.entries.filter isOpening
    = (nodes.filter (isMarker ·.label)).map Outline.label

/-! ## The entries of a derivation -/

variable {g : Grammar} {spelling words : List String} {steps : List Step} {pos stop : Nat}
  {parts : List Tree} {tree : Tree} {o n : Outline}

/-- The first inner node is named by the first head. -/
theorem Grammar.Expands.head?_outlinesOf (h : g.Expands words steps pos stop parts) :
    (Tree.outlinesOf g steps parts).head?.map Outline.label
      = (steps.find? (·.nonterminal)).map Step.symbol := by
  rw [← List.head?_map, h.map_label_outlinesOf, List.head?_map, List.head?_filter]

/-- A slot has the same value in the association list and in the outline: the name of the first
phrase inside it, or the words that it spans if there is none or the slot has a caret in front. -/
theorem Grammar.Expands.slotValue_eq (h : g.Expands words steps pos stop parts) (label : String)
    (first last : Nat) :
    Tree.slotValue label steps ((spelling.take last).drop first)
      = Outline.value spelling ⟨label, first, last, Tree.outlinesOf g steps parts⟩ := by
  -- the first head among the steps belongs to the first inner node, under the same name
  have hhead := h.head?_outlinesOf
  unfold Tree.slotValue Outline.value
  cases hfind : steps.find? (·.nonterminal) with
  | none =>
    rw [hfind, Option.map_none, Option.map_eq_none_iff] at hhead
    simp only [hhead]
  | some step =>
    rw [hfind, Option.map_some, Option.map_eq_some_iff] at hhead
    obtain ⟨inner, hinner, hlabel⟩ := hhead
    simp only [hinner, hlabel]

/-- A node shows its entries if its parts do. A node whose name has a small letter lets its parts
show theirs; any other is a slot, and what is inside it is its value. -/
theorem Tree.entries_eq_flatMap {label : String} {rule start : Nat} {p : Production}
    (hp : g.productions[rule]? = some p) (h : g.Expands words p.steps start stop parts)
    (hparts : entriesOf g spelling false p.steps parts
      = (Outline.reachedAll (outlinesOf g p.steps parts)).flatMap (Outline.shown spelling)) :
    (Tree.node rule start stop parts).entries g spelling false label
      = (Outline.reached ⟨label, start, stop, outlinesOf g p.steps parts⟩).flatMap
        (Outline.shown spelling) := by
  rw [entries, Grammar.stepsAt_eq hp, Outline.reached, List.flatMap_cons, Outline.shown,
    Outline.isSlot, AssocList.enclose, AssocList.closed]
  cases label.toList.any Text.isLower with
  | true => simp [hparts]
  | false => simp [h.slotValue_eq]

/-- Without closing markers the parts of a derivation show their entries. -/
theorem Grammar.Expands.entriesOf_eq (h : g.Expands words steps pos stop parts) :
    Tree.entriesOf g spelling false steps parts
      = (Outline.reachedAll (Tree.outlinesOf g steps parts)).flatMap (Outline.shown spelling) := by
  induction h with
  | nil pos =>
    rw [Tree.entriesOf_nil, Tree.outlinesOf_nil, Outline.reachedAll]
    rfl
  -- a terminal is a leaf, which neither an entry nor an outline tells of
  | word terminal _ _ _ ih =>
    rw [Tree.entriesOf_terminal terminal, Tree.outlinesOf_terminal terminal]
    exact ih
  | head nonterminal production _ _ inside _ ihInside ih =>
    rw [Tree.entriesOf_nonterminal nonterminal, Tree.outlinesOf_nonterminal nonterminal,
      Outline.reachedAll, List.flatMap_append, ih, Grammar.stepsAt_eq production,
      Tree.entries_eq_flatMap production inside ihInside]

/-- The nodes that a walk comes to are outlines of derivations, so what is proved of the root holds
of each of them. -/
theorem Grammar.Expands.exists_outlined (h : g.Expands words steps pos stop parts) :
    ∀ n ∈ Outline.reachedAll (Tree.outlinesOf g steps parts), ∃ t, Outlined g words t n := by
  induction h with
  | nil pos =>
    rw [Tree.outlinesOf_nil, Outline.reachedAll]
    exact fun n hn => absurd hn List.not_mem_nil
  | word terminal _ _ _ ih =>
    rw [Tree.outlinesOf_terminal terminal]
    exact ih
  | head nonterminal production usable _ inside _ ihInside ih =>
    rw [Tree.outlinesOf_nonterminal nonterminal, Outline.reachedAll, Outline.reached]
    intro n hn
    -- the part itself is a node, and the other nodes are below it or in the parts after it
    rcases List.mem_append.1 hn with hn | hn
    · rcases List.mem_cons.1 hn with rfl | hn
      · exact ⟨.node _ _ _ _, ⟨_, production, usable, inside⟩, by rw [Tree.outline?]⟩
      · rw [Grammar.stepsAt_eq production] at hn
        split at hn
        · exact ihInside n hn
        · cases hn
    · exact ih n hn

namespace Outlined

/-- A derivation has the entries that the nodes of its outline show, and with closing markers some bare
markers more. -/
theorem omits_entries (h : Outlined g words tree o) (spelling : List String) (closing : Bool) :
    AssocList.Omits AssocList.isClosing (tree.entries g spelling closing o.label)
      (o.reached.flatMap (Outline.shown spelling)) := by
  obtain ⟨rule, p, parts, rfl, hp, hexpands, hinner⟩ := h.exists_node
  obtain ⟨label, start, stop, inner⟩ := o
  subst hinner
  rw [← Tree.entries_eq_flatMap hp hexpands hexpands.entriesOf_eq]
  cases closing with
  | true => exact Tree.omits_entries _ _
  | false => exact .refl _ _

/-- A node that a walk comes to outlines some part of the derivation. So what is proved of outlined
nodes holds of all that are reached. -/
theorem exists_of_mem_reached (h : Outlined g words tree o) (hn : n ∈ o.reached) :
    ∃ t, Outlined g words t n := by
  obtain ⟨rule, p, parts, _, _, hexpands, hinner⟩ := h.exists_node
  obtain ⟨label, start, stop, inner⟩ := o
  rw [Outline.reached] at hn
  rcases List.mem_cons.1 hn with rfl | hn
  · exact ⟨tree, h⟩
  · split at hn
    · rw [show inner = _ from hinner] at hn
      exact hexpands.exists_outlined n hn
    · cases hn

/-- Inner nodes are named by symbols of the grammar. -/
theorem isWord_inner (htidy : g.Tidy) (h : Outlined g words tree o) :
    ∀ inner ∈ o.inner, Text.IsWord inner.label := by
  obtain ⟨rule, p, parts, _, hp, hexpands, hinner⟩ := h.exists_node
  intro inner hmem
  have hlabel := List.mem_map_of_mem (f := Outline.label) hmem
  rw [hinner, hexpands.map_label_outlinesOf] at hlabel
  obtain ⟨step, hstep, hsymbol⟩ := List.mem_map.1 hlabel
  rw [← hsymbol]
  exact htidy.isWord_at hp (List.mem_filter.1 hstep).1

/-- The value of a slot has no tab and no space at its end, whether it is a symbol of the grammar or
the words that the slot covers. -/
theorem clean_value (htidy : g.Tidy) (h : Outlined g words tree o)
    (hspelling : ∀ w ∈ spelling, AssocList.Plain w) : AssocList.Clean (o.value spelling) := by
  have hcovered : AssocList.Clean (" ".intercalate ((spelling.take o.stop).drop o.start)) :=
    AssocList.clean_intercalate fun w hw =>
      hspelling w (List.mem_of_mem_take (List.mem_of_mem_drop hw))
  unfold Outline.value
  split
  · rename_i inner hinner
    split
    · exact hcovered
    · exact (AssocList.plain_of_isWord (h.isWord_inner htidy inner (List.mem_of_head? hinner))).2
  · exact hcovered

end Outlined

/-! ## What kind of entry it is -/

namespace AssocList

variable {e label value : String}

theorem toList_splitPair_fst (e : String) : (splitPair e).1.toList = (Text.cutAt '=' e.toList).1 := by
  unfold splitPair
  split <;> rename_i heq <;> rw [heq, String.toList_ofList]

/-- The slot of a pair is no marker and has no equals sign, and no tab if the pair has none. -/
theorem slot_of_isPair (h : isPair e = true) :
    isMarker (splitPair e).1 = false ∧ '=' ∉ (splitPair e).1.toList
      ∧ ('\t' ∉ e.toList → '\t' ∉ (splitPair e).1.toList) := by
  have hstart := Text.cutAt_fst_prefix '=' e.toList
  rw [← toList_splitPair_fst] at hstart
  -- the slot is the beginning of the pair, so it begins as the pair does
  refine ⟨?_, ?_, fun htab hmem => htab (hstart.subset hmem)⟩
  · rw [isPair, Bool.and_eq_true] at h
    have hmarker : isMarker e = false := by simpa using h.2
    obtain ⟨rest, hrest⟩ := hstart
    rw [isMarker] at hmarker ⊢
    cases hslot : (splitPair e).1.toList with
    | nil => rfl
    | cons c cs =>
      rw [← hrest, hslot] at hmarker
      exact hmarker
  · rw [toList_splitPair_fst]
    exact Sugar.not_mem_cutAt '=' _

/-- The entry of a slot is a pair unless its name, without carets, starts as a marker does. -/
theorem isPair_slotEntry (label value : String) :
    isPair (slotEntry label value) = !isMarker (Text.trimStartWhile (· == '^') label) := by
  rw [isPair, isMarker_slotEntry_eq]
  simp [slotEntry]

/-- If there is no equals sign in its name, the entry of a slot is taken apart again. -/
theorem splitPair_slotEntry (h : '=' ∉ (Text.trimStartWhile (· == '^') label).toList)
    (value : String) :
    splitPair (slotEntry label value) = (Text.trimStartWhile (· == '^') label, value) := by
  have hcut : Text.cutAt '=' (slotEntry label value).toList
      = ((Text.trimStartWhile (· == '^') label).toList, some value.toList) := by
    rw [slotEntry, String.toList_append, String.toList_append, List.append_assoc]
    exact Text.cutAt_append h value.toList
  simp only [splitPair, hcut, String.ofList_toList]

end AssocList

/-! ## Legible nodes -/

namespace Outline.Legible

open AssocList (isMarker isPair isOpening slotEntry)

/-- What starts with a marker character is no slot: a legible slot has a name that is no marker, and
without a caret in front the name is the whole label. -/
theorem isSlot_eq_false (h : n.Legible) (hmarker : isMarker n.label = true) : n.isSlot = false := by
  rw [← Bool.not_eq_true]
  intro hslot
  have hname := (h.slot hslot).1
  have hcaret : n.label.toList.head? ≠ some '^' := by
    intro hcaret
    simp [isMarker, hcaret, AssocList.isMarkerChar] at hmarker
  rw [slotName, AssocList.trimStartWhile_caret hcaret, hmarker] at hname
  cases hname

/-- What a legible node shows is read back as it is. -/
theorem plain_shown (h : n.Legible) (hvalue : AssocList.Clean (n.value spelling)) :
    ∀ e ∈ n.shown spelling, AssocList.Plain e := by
  intro e he
  rw [shown, AssocList.opened] at he
  -- a node shows its marker first, if it has one, and then its pair, if it is a slot
  rcases List.mem_append.1 he with he | he <;> split at he
  · rename_i hmarker
    rw [List.mem_singleton.1 he]
    exact ⟨AssocList.ne_nil_of_isMarker hmarker, h.phrase hmarker⟩
  · cases he
  · rename_i hslot
    rw [List.mem_singleton.1 he]
    exact AssocList.plain_slotEntry (h.slot hslot).2.2 hvalue
  · cases he

/-- Among the entries of a legible node its pair is the only one, and it is there just if the node
is a slot. -/
theorem filter_isPair_shown (h : n.Legible) (spelling : List String) :
    (n.shown spelling).filter isPair
      = if n.isSlot then [slotEntry n.label (n.value spelling)] else [] := by
  rw [shown, AssocList.opened]
  cases hmarker : isMarker n.label with
  | true => simp [h.isSlot_eq_false hmarker, AssocList.isPair_of_isMarker hmarker]
  | false =>
    cases hslot : n.isSlot with
    | false => rfl
    | true =>
      have hname := (h.slot hslot).1
      rw [slotName] at hname
      simp [AssocList.isPair_slotEntry, hname]

/-- Among them its marker is the only opening, and it is there just if the node's name is one. -/
theorem filter_isOpening_shown (h : n.Legible) (spelling : List String) :
    (n.shown spelling).filter isOpening = if isMarker n.label then [n.label] else [] := by
  rw [shown, AssocList.opened]
  cases hmarker : isMarker n.label with
  | true =>
    have hphrase := h.isSlot_eq_false hmarker
    -- a phrase has a small letter, so its name is longer than the marker character
    have hlower : n.label.toList.any Text.isLower = true := by simpa [isSlot] using hphrase
    obtain ⟨c, cs, hlabel, _, hcs⟩ := AssocList.exists_of_isMarker hmarker hlower
    have hlength : 1 < n.label.length := by
      rw [← String.length_toList, hlabel, List.length_cons]
      have := List.length_pos_of_ne_nil hcs
      omega
    simp [hphrase, isOpening, hmarker, hlength]
  | false =>
    cases hslot : n.isSlot with
    | false => rfl
    | true =>
      have hname := (h.slot hslot).1
      rw [slotName] at hname
      simp [isOpening, AssocList.isMarker_slotEntry_eq, hname]

end Outline.Legible

/-! ## Pairs and phrases -/

namespace AssocList

variable {nodes : List Outline} {alist : AssocList} {p : String → Bool} {e : String}

/-- A bare marker is no pair. -/
theorem isPair_of_isClosing (h : isClosing e = true) : isPair e = false :=
  isPair_of_isMarker (isMarker_of_isClosing h)

/-- Nor does it open anything. -/
theorem isOpening_of_isClosing (h : isClosing e = true) : isOpening e = false := by
  rw [isClosing, Bool.and_eq_true, decide_eq_true_eq] at h
  rw [isOpening, Bool.and_eq_false_iff, decide_eq_false_iff_not]
  exact .inr (Nat.not_lt_of_le h.2)

/-- What some nodes give by one entry each. -/
theorem flatMap_ite_singleton (keep : Outline → Bool) (f : Outline → String) :
    nodes.flatMap (fun n => if keep n then [f n] else []) = (nodes.filter keep).map f := by
  induction nodes with
  | nil => rfl
  | cons n nodes ih => cases hkeep : keep n <;> simp [hkeep, ih]

/-- A list with the entries of legible nodes, among other entries that are bare markers, tells them
apart. -/
theorem shows_of_legible {spelling : List String}
    (h : Omits isClosing alist.entries (nodes.flatMap (Outline.shown spelling)))
    (hnodes : ∀ n ∈ nodes, n.Legible) : alist.Shows spelling nodes where
  pairs := by
    have hpairs : alist.entries.filter isPair
        = (nodes.filter (·.isSlot)).map fun n => slotEntry n.label (n.value spelling) := by
      rw [h.filter_eq fun _ => isPair_of_isClosing, List.filter_flatMap, ← flatMap_ite_singleton]
      exact List.flatMap_congr fun n hn => (hnodes n hn).filter_isPair_shown spelling
    rw [hpairs, List.map_map]
    apply List.map_congr_left
    intro n hn
    obtain ⟨hmem, hslot⟩ := List.mem_filter.1 hn
    rw [Function.comp_apply, splitPair_slotEntry ((hnodes n hmem).slot hslot).2.1, Outline.slotName]
  openings := by
    rw [h.filter_eq fun _ => isOpening_of_isClosing, List.filter_flatMap, ← flatMap_ite_singleton]
    exact List.flatMap_congr fun n hn => (hnodes n hn).filter_isOpening_shown spelling

/-- Only legible nodes can be told apart. What is read from a list has no tab and no space at its end,
and the slot of a pair is no marker and has no equals sign, so no such name can be among them. -/
theorem Shows.legible {spelling : List String} (h : alist.Shows spelling nodes) :
    ∀ n ∈ nodes, n.Legible := by
  intro n hn
  constructor
  · intro hslot
    -- the node's slot and value are read off a pair, and no pair has a marker for its slot
    have hmem : (n.slotName, n.value spelling) ∈ (alist.entries.filter isPair).map splitPair := by
      rw [h.pairs]
      exact List.mem_map.2 ⟨n, List.mem_filter.2 ⟨hn, hslot⟩, rfl⟩
    obtain ⟨e, he, hsplit⟩ := List.mem_map.1 hmem
    obtain ⟨hentry, hpair⟩ := List.mem_filter.1 he
    obtain ⟨hmarker, hequals, htab⟩ := slot_of_isPair hpair
    rw [hsplit] at hmarker hequals htab
    exact ⟨hmarker, hequals, htab (tab_not_mem_entry hentry)⟩
  · intro hmarker
    have hmem : n.label ∈ alist.entries.filter isOpening := by
      rw [h.openings]
      exact List.mem_map.2 ⟨n, List.mem_filter.2 ⟨hn, hmarker⟩, rfl⟩
    exact (plain_of_mem_entries (List.mem_filter.1 hmem).1).2

end AssocList

/-! ## The association list -/

namespace Analysis

variable {a : Analysis} {s : ChartState} {p : Production} {text : String}

/-- The association list of a selected derivation tells its nodes apart exactly if they are legible.
The closing markers among its entries do not matter. -/
theorem Selected.shows_iff (hg : g.Coherent) (htidy : g.Tidy)
    (hs : Selected g (tokenize true text) a s) (hp : g.productions[s.item.rule]? = some p)
    (ho : (a.chart.tree s).outline? g p.head = some o) (closing : Bool) :
    ∃ alist, (a.assocList g closing).result = .ok alist
      ∧ (alist.Shows a.spelling o.reached ↔ ∀ n ∈ o.reached, n.Legible) := by
  obtain ⟨parts, _, _, houtlined⟩ :=
    Grammar.exists_parts_of_mem_derivations hp hs.derives p.head
  obtain rfl := Option.some.inj (houtlined.outline.symm.trans ho)
  have homits := houtlined.omits_entries a.spelling closing
  refine ⟨_, assocList_eq_ofEntries hg hs.candidate hs.derives hp closing, AssocList.Shows.legible, ?_⟩
  intro hlegible
  apply AssocList.shows_of_legible _ hlegible
  rw [AssocList.entries_ofEntries]
  · exact homits
  · intro e he
    rcases homits.mem_or he with he | hclosing
    · obtain ⟨n, hn, he⟩ := List.mem_flatMap.1 he
      obtain ⟨t, ht⟩ := houtlined.exists_of_mem_reached hn
      exact (hlegible n hn).plain_shown (ht.clean_value htidy (hs.plain_spelling htidy)) e he
    · exact AssocList.plain_of_isClosing hclosing

/-- The association list of a text that parses, with closing markers or without. Its pairs are the slots
among the nodes that the walk comes to, in order, each with its name and value, and its markers with a
name are the nodes whose names start with a marker character, in order, exactly if all these nodes are
legible. -/
theorem assocList_shows_nodes_iff {g : Grammar} (hg : g.Built) (status : Nat → Status)
    (text : String) (conf : Confidence) (closing : Bool)
    (hparses : (parse (g.withStatuses status) (.text text) conf).state.candidates ≠ []) :
    let grammar := g.withStatuses status
    let a := (parse grammar (.text text) conf).state
    ∃ s p o alist, a.candidate? none = some s ∧ grammar.productions[s.item.rule]? = some p
      ∧ a.chart.tree s ∈ grammar.derivations (tokenize true text) s.item.rule
      ∧ (a.chart.tree s).outline? grammar p.head = some o
      ∧ (a.assocList grammar closing).result = .ok alist
      ∧ (alist.Shows a.spelling o.reached ↔ ∀ n ∈ o.reached, n.Legible) := by
  intro grammar a
  have hcoherent : grammar.Coherent := hg.coherent.withStatuses status
  have htidy : grammar.Tidy := hg.tidy.withStatuses status
  obtain ⟨s, hs⟩ := exists_selected hcoherent hparses
  obtain ⟨p, _, hp, houtlined⟩ := Grammar.exists_outlined_of_mem_derivations hs.derives
  obtain ⟨alist, halist, hshows⟩ := hs.shows_iff hcoherent htidy hp houtlined.outline closing
  exact ⟨s, p, _, alist, hs.candidate, hp, hs.derives, houtlined.outline, halist, hshows⟩

/-- A walk comes to both nodes of an outing. -/
theorem reached_outing :
    (Outline.mk "!go" 0 2 [⟨"PLACE", 1, 2, []⟩]).reached
      = [⟨"!go", 0, 2, [⟨"PLACE", 1, 2, []⟩]⟩, ⟨"PLACE", 1, 2, []⟩] := by
  have hphrase : "!go".toList.any Text.isLower = true := by decide
  have hslot : ¬"PLACE".toList.any Text.isLower = true := by decide
  rw [Outline.reached, if_pos hphrase, Outline.reachedAll, Outline.reached, if_neg hslot,
    Outline.reachedAll]
  rfl

/-- The nodes of an outing are a phrase and the slot in it, and the list tells them apart. -/
theorem assocList_shows_nodes_outing :
    let a := (parse topOutings (.text "Go home") .absent).state
    let go : Outline := ⟨"!go", 0, 2, [⟨"PLACE", 1, 2, []⟩]⟩
    a.candidates ≠ []
      ∧ (go.reached.filter (·.isSlot)).map (fun n => (n.slotName, n.value a.spelling))
        = [("PLACE", "home")]
      ∧ ∃ alist, (a.assocList topOutings true).result = .ok alist ∧ alist.Shows a.spelling go.reached := by
  intro a go
  have hreached : go.reached = [go, ⟨"PLACE", 1, 2, []⟩] := reached_outing
  have hlegible : ∀ n ∈ go.reached, n.Legible := by
    rw [hreached]
    intro n hn
    simp only [List.mem_cons, List.not_mem_nil, or_false] at hn
    rcases hn with rfl | rfl
    · exact ⟨by decide, fun _ => ⟨by decide, by decide⟩⟩
    · exact ⟨by decide, fun hmarker => absurd hmarker (by decide)⟩
  obtain ⟨s, p, o, alist, hcandidate, hp, _, ho, halist, hshows⟩ :=
    assocList_shows_nodes_iff built_outings (fun _ => .top) "Go home" .absent true candidates_topOutings
  obtain ⟨s', hs', hp', htree⟩ := exists_selected_phrase toWords_outing
  -- there is one selected candidate only, so both theorems speak of the same node
  obtain rfl := Option.some.inj (hs'.candidate.symm.trans hcandidate)
  obtain rfl := Option.some.inj (hp'.symm.trans hp)
  rw [htree, outline?_outing, Option.some.injEq] at ho
  rw [← ho] at hshows
  refine ⟨candidates_topOutings, ?_, alist, halist, hshows.2 hlegible⟩
  rw [hreached, spelling_topOutings]
  decide

/-! ## A slot with the name of a phrase -/

/-- A grammar for one word. -/
def command (head : String) : Grammar :=
  (Grammar.expand { dictation := 5, maxAlerts := 10 } head "go" "").grammar

theorem built_command (head : String) : (command head).Built :=
  (Grammar.Built.empty 5 10).expand head "go" ""

/-- The grammar above, with productions that may start a sentence. -/
abbrev topCommand (head : String) : Grammar := (command head).withStatuses fun _ => .top

theorem plain_go : Grammar.Plain "go" :=
  ⟨Text.isWord_of_all (by decide) (by decide), by decide, by decide, by decide, by decide⟩

variable {head : String} {rule : Nat}

/-- The only production, with its status. -/
theorem production_topCommand :
    (topCommand head).productions[rule]? = some p
      ↔ rule = 0 ∧ p = ⟨0, head, Grammar.wordSteps "go", .top⟩ := by
  have hproductions : (command head).productions
      = #[⟨0, head, Grammar.wordSteps "go", .active⟩] := by
    rw [command, Grammar.productions_expand_plain (Grammar.tidy_of_isEmpty rfl rfl) plain_go.nested
      plain_go.sugarless (plain_go.forms head) (by simp)]
    rfl
  cases rule with
  | zero => simp [topCommand, Grammar.withStatuses, hproductions, eq_comm]
  | succ rule => simp [topCommand, Grammar.withStatuses, hproductions]

/-- The word has one derivation. -/
theorem mem_derivations_topCommand :
    tree ∈ (topCommand head).derivations ["go"] rule ↔ rule = 0 ∧ tree = .node 0 0 1 [.word] := by
  constructor
  · rintro ⟨parts, rfl, p, hp, _, hexpands⟩
    obtain ⟨rfl, rfl⟩ := production_topCommand.1 hp
    obtain ⟨_, _, rfl⟩ := (Grammar.Expands.single_iff rfl).1 hexpands
    exact ⟨rfl, rfl⟩
  · rintro ⟨rfl, rfl⟩
    exact ⟨_, rfl, _, production_topCommand.2 ⟨rfl, rfl⟩, rfl, .word rfl rfl (.inr rfl) (.nil 1)⟩

theorem toWords_go : (Sentence.text "go").toWords = ["go"] := by decide +kernel

/-- The word is derived, so there are candidates. -/
theorem candidates_topCommand (head : String) :
    (parse (topCommand head) (.text "go") .absent).state.candidates ≠ [] := by
  have hsome : (Sentence.text "go").toWords ≠ [] := by
    rw [toWords_go]
    exact List.cons_ne_nil _ _
  have hderives : .node 0 0 1 [.word]
      ∈ (topCommand head).derivations (Sentence.text "go").toWords 0 := by
    rw [toWords_go]
    exact mem_derivations_topCommand.2 ⟨rfl, rfl⟩
  exact candidates_ne_nil ((built_command head).coherent.withStatuses _) rfl hsome
    (production_topCommand.2 ⟨rfl, rfl⟩) rfl hderives

/-- The outline of the word is a node without inner nodes, named as the head. -/
theorem exists_selected_command (head : String) :
    let a := (parse (topCommand head) (.text "go") .absent).state
    ∃ s, Selected (topCommand head) ["go"] a s
      ∧ (topCommand head).productions[s.item.rule]? = some ⟨0, head, Grammar.wordSteps "go", .top⟩
      ∧ Outlined (topCommand head) ["go"] (a.chart.tree s) ⟨head, 0, 1, []⟩
      ∧ a.spelling = ["go"] := by
  intro a
  obtain ⟨s, hs⟩ :=
    exists_selected ((built_command head).coherent.withStatuses _) (candidates_topCommand head)
  rw [toWords_go] at hs
  obtain ⟨hrule, htree⟩ := mem_derivations_topCommand.1 hs.derives
  have hp := @production_topCommand _ head s.item.rule |>.2 ⟨hrule, rfl⟩
  obtain ⟨parts, _, _, houtlined⟩ := Grammar.exists_parts_of_mem_derivations hp hs.derives head
  rw [Tree.outlinesOf_eq_nil rfl] at houtlined
  refine ⟨s, hs, hp, houtlined, ?_⟩
  rw [hs.spelling, Grammar.spell_eq_zipWith hs.derives, htree,
    Tree.leaves_node (production_topCommand.2 ⟨rfl, rfl⟩)]
  rfl

/-- A slot that starts with a marker character gives two markers and no pair, so it is not told
apart from a phrase. -/
theorem not_forall_assocList_shows_nodes :
    ¬∀ (g : Grammar) (status : Nat → Status) (text : String) (conf : Confidence) (closing : Bool),
      g.Built → (parse (g.withStatuses status) (.text text) conf).state.candidates ≠ [] →
      let grammar := g.withStatuses status
      let a := (parse grammar (.text text) conf).state
      ∀ s p o alist, a.candidate? none = some s → grammar.productions[s.item.rule]? = some p →
        (a.chart.tree s).outline? grammar p.head = some o →
        (a.assocList grammar closing).result = .ok alist → alist.Shows a.spelling o.reached := by
  intro h
  obtain ⟨s, hs, hp, houtlined, _⟩ := exists_selected_command "!GO"
  have ho := houtlined.outline
  have hs' := hs
  rw [← toWords_go] at hs'
  obtain ⟨alist, halist, hshows⟩ := hs'.shows_iff ((built_command "!GO").coherent.withStatuses _)
    ((built_command "!GO").tidy.withStatuses _) hp ho false
  have hlegible := hshows.1 (h (command "!GO") (fun _ => .top) "go" .absent false (built_command "!GO")
    (candidates_topCommand "!GO") s _ _ alist hs.candidate hp ho halist)
  have hgo := (hlegible ⟨"!GO", 0, 1, []⟩ (by rw [Outline.reached]; exact List.mem_cons_self ..)).slot
    (by decide)
  exact absurd hgo.1 (by decide)

end Analysis

end Utterance
