import Utterance.Text.Blank
import Utterance.Text.Casing

/-!
# Association lists

The flat record that is handed on for an utterance: a text of entries with a tab before each. An entry
is a pair of a slot and its value, or a marker that opens a phrase with one of the characters `!`, `$`
and `%`; a bare character closes a phrase. Questions that walk along a list answer with the remainder
after what they found, which is a shorter association list, so that they can be chained.
-/

namespace Utterance

/-- An association list. -/
structure AssocList where
  text : String
  deriving DecidableEq, Repr

namespace AssocList

/-! ## Entries -/

/-- Entries of a text: the non-blank pieces after its first tab, without blanks at their end. -/
def entryChars (cs : List Char) : List (List Char) :=
  (((Text.pieces '\t' cs).drop 1).filter fun p => p.any (· != ' ')).map
    (Text.dropTailWhile (· == ' '))

/-- The entries of a list. -/
def entries (a : AssocList) : List String := (entryChars a.text.toList).map String.ofList

/-- The list with the given entries. -/
def ofEntries (items : List String) : AssocList := ⟨String.join (items.map ("\t" ++ ·))⟩

/-- A character that marks a phrase. -/
def isMarkerChar (c : Char) : Bool := c == '!' || c == '$' || c == '%'

/-- Whether an entry marks a phrase. -/
def isMarker (entry : String) : Bool := entry.toList.head?.any isMarkerChar

/-- Whether an entry is a pair of a slot and a value. -/
def isPair (entry : String) : Bool := entry.toList.contains '=' && !isMarker entry

/-- Slot and value of an entry: what stands before and after its first equals sign. -/
def splitPair (entry : String) : String × String :=
  match Text.cutAt '=' entry.toList with
  | (slot, some value) => (String.ofList slot, String.ofList value)
  | (slot, none) => (String.ofList slot, "")

/-- Slot of an entry. -/
def slotOf (entry : String) : String := (splitPair entry).1

/-- Whether an entry marks a phrase without naming it, and so closes one. -/
def isClosing (entry : String) : Bool := isMarker entry && entry.length ≤ 1

/-- The remainder if the next entry is `tag`, or agrees with it in the first `n` characters if `n` is
positive. -/
def nextMatches (a : AssocList) (tag : String) (n : Int) : Option AssocList :=
  match a.entries with
  | [] => none
  | head :: rest =>
    let hit :=
      if 0 < n then head.toList.take n.toNat == tag.toList.take n.toNat else head == tag
    if hit then some (ofEntries rest) else none

/-! ## Tabs are counted down -/

/-- There is one piece more than there are separators. -/
theorem length_pieces (sep : Char) (cs : List Char) :
    (Text.pieces sep cs).length = cs.count sep + 1 := by
  induction cs with
  | nil => rfl
  | cons c cs ih =>
    rw [Text.pieces]
    split
    · rename_i h
      simp [h, ih]
    · rename_i h
      rw [List.count_cons_of_ne (by simpa using h)]
      split
      · rename_i first rest hp
        rw [hp] at ih
        simpa using ih
      -- there is always a piece, so the character has one to go to
      · rename_i hp
        rw [hp] at ih
        simp at ih

/-- No piece has a separator in it. -/
theorem not_mem_of_mem_pieces {sep : Char} {cs p : List Char} (h : p ∈ Text.pieces sep cs) :
    sep ∉ p := by
  induction cs generalizing p with
  | nil => simp [Text.pieces] at h; simp [h]
  | cons c cs ih =>
    rw [Text.pieces] at h
    split at h
    -- the first piece also takes up the character, which is no separator
    · rcases List.mem_cons.1 h with rfl | h
      · simp
      · exact ih h
    · rename_i hc
      split at h
      · rename_i first rest hp
        rw [hp] at ih
        rcases List.mem_cons.1 h with rfl | h
        · have := @ih first (by simp)
          simp only [List.mem_cons, not_or]
          exact ⟨fun he => hc he.symm, this⟩
        · exact ih (List.mem_cons_of_mem _ h)
      · simp at h
        simp only [h, List.mem_singleton]
        exact fun he => hc he.symm

/-- What is left was there before. -/
theorem mem_of_mem_dropTailWhile {p : Char → Bool} {c : Char} {cs : List Char}
    (h : c ∈ Text.dropTailWhile p cs) : c ∈ cs := by
  have := (List.dropWhile_sublist p).subset (List.mem_reverse.1 h)
  simpa using this

/-- No entry holds a tab. -/
theorem tab_not_mem_entry {a : AssocList} {e : String} (h : e ∈ a.entries) : '\t' ∉ e.toList := by
  simp only [entries, entryChars, List.mem_map, List.mem_filter] at h
  obtain ⟨_, ⟨p, ⟨hp, _⟩, rfl⟩, rfl⟩ := h
  intro htab
  rw [String.toList_ofList] at htab
  exact not_mem_of_mem_pieces (List.mem_of_mem_drop hp) (mem_of_mem_dropTailWhile htab)

/-- Number of tabs in a list. -/
def tabs (a : AssocList) : Nat := a.text.toList.count '\t'

/-- There are no more entries than tabs. -/
theorem length_entries_le (a : AssocList) : a.entries.length ≤ a.tabs := by
  simp only [entries, entryChars, List.length_map]
  refine Nat.le_trans (List.length_filter_le _ _) ?_
  simp [length_pieces, tabs]

/-- A list that is made of entries has a tab for each of them, since there is none inside an entry.
So its entries can be counted without taking it apart. -/
theorem tabs_ofEntries {es : List String} (h : ∀ e ∈ es, '\t' ∉ e.toList) :
    (ofEntries es).tabs = es.length := by
  simp only [tabs, ofEntries, String.toList_join]
  induction es with
  | nil => rfl
  | cons e es ih =>
    have he := h e (by simp)
    have ih := ih fun x hx => h x (by simp [hx])
    simp only [List.map_cons, List.flatMap_cons, List.count_append, List.length_cons, ih,
      String.toList_append]
    rw [List.count_eq_zero.2 he]
    have : "\t".toList = ['\t'] := rfl
    simp [this]
    omega

/-- What follows an entry has fewer tabs than the list. -/
theorem tabs_ofEntries_lt {a : AssocList} {es : List String} (hsub : ∀ e ∈ es, e ∈ a.entries)
    (hlt : es.length < a.entries.length) : (ofEntries es).tabs < a.tabs := by
  rw [tabs_ofEntries fun e he => tab_not_mem_entry (hsub e he)]
  exact Nat.lt_of_lt_of_le hlt a.length_entries_le

/-! ## Slots -/

/-- The next pair among entries, with what follows it. With `within` set the search stops at the next
marker. -/
def scanSlot (within : Bool) : List String → Option (String × String × List String)
  | [] => none
  | e :: rest =>
    if within && isMarker e then none
    else if isPair e then some ((splitPair e).1, (splitPair e).2, rest)
    else scanSlot within rest

/-- The next slot with its value and the remainder. With `within` set the search stops at the next
marker. -/
def nextSlot (a : AssocList) (within : Bool) : Option (String × String × AssocList) :=
  (scanSlot within a.entries).map fun (slot, value, rest) => (slot, value, ofEntries rest)

/-- What is left after a slot was found is a shorter part of the items. Searches that go on from
there therefore come to an end. -/
theorem scanSlot_rest {within : Bool} {items rest : List String} {slot value : String}
    (h : scanSlot within items = some (slot, value, rest)) :
    (∀ e ∈ rest, e ∈ items) ∧ rest.length < items.length := by
  induction items with
  | nil => simp [scanSlot] at h
  | cons e items ih =>
    rw [scanSlot] at h
    split at h
    · simp at h
    · split at h
      · simp only [Option.some.injEq, Prod.mk.injEq] at h
        obtain ⟨_, _, rfl⟩ := h
        exact ⟨fun x hx => by simp [hx], by simp⟩
      · obtain ⟨hsub, hlt⟩ := ih h
        exact ⟨fun x hx => by simp [hsub x hx], by simp; omega⟩

/-- Taking a slot leaves fewer tabs, so that slots can be taken one after the other. -/
theorem tabs_nextSlot_lt {a rest : AssocList} {within : Bool} {slot value : String}
    (h : a.nextSlot within = some (slot, value, rest)) : rest.tabs < a.tabs := by
  simp only [nextSlot, Option.map_eq_some_iff] at h
  obtain ⟨⟨s, v, r⟩, hscan, heq⟩ := h
  simp only [Prod.mk.injEq] at heq
  obtain ⟨_, _, rfl⟩ := heq
  obtain ⟨hsub, hlt⟩ := scanSlot_rest hscan
  exact tabs_ofEntries_lt hsub hlt

/-- The value of the first slot with a name in any case, and the remainder after it. -/
def lookup (a : AssocList) (slot : String) (within : Bool) : Option (String × AssocList) :=
  match _h : a.nextSlot within with
  | none => none
  | some (name, value, rest) =>
    if Text.sameFolded name slot then some (value, rest) else rest.lookup slot within
termination_by a.tabs
decreasing_by exact tabs_nextSlot_lt _h

/-- The remainder after the first slot with a name. -/
def findSlot (a : AssocList) (slot : String) (within : Bool) : Option AssocList :=
  (a.lookup slot within).map (·.2)

/-- The value of the first slot with a name. -/
def slotValue (a : AssocList) (slot : String) (within : Bool) : Option String :=
  (a.lookup slot within).map (·.1)

/-- Whether there is a slot with a name. -/
def hasSlot (a : AssocList) (slot : String) (within : Bool) : Bool := (a.findSlot slot within).isSome

/-- Whether there is a slot with one of the names. -/
def anySlot (a : AssocList) (slots : List String) (within : Bool) : Bool :=
  slots.any fun s => a.hasSlot s within

/-! ## Phrases -/

/-- The next marker among entries, with what follows it. -/
def scanMarker : List String → Option (String × List String)
  | [] => none
  | e :: rest => if isMarker e then some (e, rest) else scanMarker rest

/-- The next marker and the remainder. -/
def nextMarker (a : AssocList) : Option (String × AssocList) :=
  (scanMarker a.entries).map fun (e, rest) => (e, ofEntries rest)

/-- What is left after a marker was found is a shorter part of the items. -/
theorem scanMarker_rest {items rest : List String} {marker : String}
    (h : scanMarker items = some (marker, rest)) :
    (∀ e ∈ rest, e ∈ items) ∧ rest.length < items.length := by
  induction items with
  | nil => simp [scanMarker] at h
  | cons e items ih =>
    rw [scanMarker] at h
    split at h
    · simp only [Option.some.injEq, Prod.mk.injEq] at h
      obtain ⟨_, rfl⟩ := h
      exact ⟨fun x hx => by simp [hx], by simp⟩
    · obtain ⟨hsub, hlt⟩ := ih h
      exact ⟨fun x hx => by simp [hsub x hx], by simp; omega⟩

/-- Taking a marker leaves fewer tabs, so that markers can be taken one after the other. -/
theorem tabs_nextMarker_lt {a rest : AssocList} {marker : String}
    (h : a.nextMarker = some (marker, rest)) : rest.tabs < a.tabs := by
  simp only [nextMarker, Option.map_eq_some_iff] at h
  obtain ⟨⟨m, r⟩, hscan, heq⟩ := h
  simp only [Prod.mk.injEq] at heq
  obtain ⟨_, rfl⟩ := heq
  obtain ⟨hsub, hlt⟩ := scanMarker_rest hscan
  exact tabs_ofEntries_lt hsub hlt

/-- The remainder after the first marker that is `marker` in any case. -/
def findMarker (a : AssocList) (marker : String) : Option AssocList :=
  match _h : a.nextMarker with
  | none => none
  | some (kind, rest) => if Text.sameFolded kind marker then some rest else rest.findMarker marker
termination_by a.tabs
decreasing_by exact tabs_nextMarker_lt _h

/-- Whether there is a marker. -/
def hasMarker (a : AssocList) (marker : String) : Bool := (a.findMarker marker).isSome

/-- Whether there is one of the markers. -/
def anyMarker (a : AssocList) (markers : List String) : Bool := markers.any a.hasMarker

/-- The entries before and after the bare marker that closes a phrase of which `depth` inner phrases
are open; a negative depth means that the phrase is still to be opened. -/
def scanClose (depth : Int) : List String → Option (List String × List String)
  | [] => none
  | e :: rest =>
    let go (depth : Int) := (scanClose depth rest).map fun (body, after) => (e :: body, after)
    if !isMarker e then go depth
    else if 1 < e.length then go (depth + 1)
    else if depth = 0 then some ([], rest)
    else go (depth - 1)

/-- The remainder after the bare marker that closes the current phrase. With `skip` set the first
marker is the one that opens it. -/
def closePhrase (a : AssocList) (skip : Bool) : Option AssocList :=
  (scanClose (if skip then -1 else 0) a.entries).map fun (_, after) => ofEntries after

/-- The next phrase: its marker, its body and the remainder. The marker that closes it belongs to
neither; a phrase that is not closed runs to the end. -/
def splitPhrase (a : AssocList) : Option (String × AssocList × AssocList) :=
  (scanMarker a.entries).map fun (marker, rest) =>
    match scanClose 0 rest with
    | some (body, after) => (marker, ofEntries body, ofEntries after)
    | none => (marker, ofEntries rest, ⟨""⟩)

/-- The list from its first marker on. -/
def dropPairs (a : AssocList) : Option AssocList :=
  match a.entries.dropWhile (!isMarker ·) with
  | [] => none
  | items => some (ofEntries items)

/-! ## Values and display -/

/-- A value without a marker and a one-letter prefix, with spaces for hyphens. -/
def cleanValue (value : String) : String :=
  let cs := value.toList
  let cs := if isMarker value then cs.drop 1 else cs
  let cs := if cs[1]? == some '-' then cs.drop 2 else cs
  String.ofList (cs.map fun c => if c = '-' then ' ' else c)

/-- A list on one line: spaces stand for tabs and underscores for spaces. -/
def pretty (a : AssocList) : String :=
  let cs := a.text.toList.map fun c => if c = ' ' then '_' else if c = '\t' then ' ' else c
  match cs with
  | ' ' :: rest => String.ofList rest
  | _ => String.ofList cs

/-- The list that a line shows. -/
def ofPretty (line : String) : AssocList :=
  if line.isEmpty then ⟨""⟩
  else
    ⟨String.ofList ('\t' :: line.toList.map fun c =>
      if c = ' ' then '\t' else if c = '_' then ' ' else c)⟩

end AssocList

end Utterance
