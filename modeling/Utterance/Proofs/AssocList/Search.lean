import Mathlib.Data.List.TakeWhile
import Utterance.Proofs.AssocList.Entries

/-!
# One scan instead of many

A search for a slot goes from pair to pair, and a search for a marker from marker to marker. After each
step what is left is put together as a list of its own, which is read anew. Nothing is skipped in this
way and nothing is read twice, however a list is written: an entry that was read once is plain, so it is
read again as it is. So a search finds what one scan of the entries finds. It comes to an end because
what is left has fewer tabs.
-/

namespace Utterance.AssocList

/-! ## One scan -/

/-- The entries that a search may look at: with `within` set only those before the first marker. -/
def inReach (within : Bool) (items : List String) : List String :=
  if within then items.takeWhile (!isMarker ·) else items

/-- Whether an entry is a pair whose slot is `slot` in any case. -/
def holdsSlot (slot entry : String) : Bool := isPair entry && Text.sameFolded (slotOf entry) slot

/-- Whether an entry is the marker `marker` in any case. -/
def isMarkerNamed (marker entry : String) : Bool := isMarker entry && Text.sameFolded entry marker

/-- Position of the first entry in reach that holds a slot. -/
def slotIndex? (a : AssocList) (slot : String) (within : Bool) : Option Nat :=
  (inReach within a.entries).findIdx? (holdsSlot slot)

/-- Position of the first entry that is a marker with a name. -/
def markerIndex? (a : AssocList) (marker : String) : Option Nat :=
  a.entries.findIdx? (isMarkerNamed marker)

variable {a b : AssocList} {items : List String} {e slot marker : String} {within : Bool}

/-- What is in reach, entry by entry: a search within a phrase stops at the first marker. -/
theorem inReach_cons (within : Bool) (e : String) (items : List String) :
    inReach within (e :: items)
      = if within && isMarker e then [] else e :: inReach within items := by
  cases within with
  | false => rfl
  | true => cases h : isMarker e <;> simp [inReach, h]

/-! ## What is left is read again -/

/-- An entry that was read is read again as it is: it is not blank, has no tab, and no space at its
end. -/
theorem plain_of_mem_entries (h : e ∈ a.entries) : Plain e := by
  have htab : '\t' ∉ e.toList := tab_not_mem_entry h
  simp only [entries, entryChars, List.mem_map, List.mem_filter] at h
  obtain ⟨_, ⟨p, ⟨_, hp⟩, rfl⟩, rfl⟩ := h
  rw [String.toList_ofList] at htab
  refine ⟨?_, ?_, ?_⟩
  · -- only a blank piece has nothing left when the spaces at its end are cut off
    intro hnil
    rw [String.toList_ofList, Text.dropTailWhile, List.reverse_eq_nil_iff,
      List.dropWhile_eq_nil_iff] at hnil
    obtain ⟨c, hc, hspace⟩ := List.any_eq_true.1 hp
    have := hnil c (List.mem_reverse.2 hc)
    simp_all
  · rw [String.toList_ofList]
    exact htab
  · intro hlast
    rw [String.toList_ofList] at hlast
    have := Text.getLast?_dropTailWhile ' ' hlast
    simp at this

/-- Entries that were read are read again as they are. -/
theorem entries_ofEntries_of_subset (h : ∀ e ∈ items, e ∈ a.entries) :
    (ofEntries items).entries = items :=
  entries_ofEntries fun e he => plain_of_mem_entries (h e he)

/-! ## Slots -/

/-- A search, unfolded once. -/
theorem lookup_eq (a : AssocList) (slot : String) (within : Bool) :
    a.lookup slot within
      = match a.nextSlot within with
        | none => none
        | some (name, value, rest) =>
          if Text.sameFolded name slot then some (value, rest) else rest.lookup slot within := by
  rw [lookup]
  split <;> rename_i h <;> rw [h]

/-- A search depends on nothing but the entries. -/
theorem lookup_congr (h : a.entries = b.entries) (slot : String) (within : Bool) :
    a.lookup slot within = b.lookup slot within := by
  rw [lookup_eq a, lookup_eq b, nextSlot, nextSlot, h]

/-- One step of a search: it stops at a marker out of reach and at the slot, and goes on behind every
other entry. -/
theorem lookup_cons (h : ∀ d ∈ e :: items, Plain d) (slot : String) (within : Bool) :
    (ofEntries (e :: items)).lookup slot within
      = if within && isMarker e then none
        else if holdsSlot slot e then some ((splitPair e).2, ofEntries items)
        else (ofEntries items).lookup slot within := by
  have hrest : ∀ d ∈ items, Plain d := fun d hd => h d (List.mem_cons_of_mem _ hd)
  rw [lookup_eq, nextSlot, entries_ofEntries h, scanSlot, holdsSlot]
  by_cases hstop : (within && isMarker e) = true
  · rw [if_pos hstop, if_pos hstop]
    rfl
  rw [if_neg hstop, if_neg hstop]
  by_cases hpair : isPair e = true
  · rw [if_pos hpair, hpair, Bool.true_and]
    rfl
  -- an entry that is no pair is passed over inside one step
  · rw [if_neg hpair, Bool.eq_false_iff.2 hpair, Bool.false_and, if_neg Bool.false_ne_true,
      lookup_eq (ofEntries items), nextSlot, entries_ofEntries hrest]

/-- A search in plain entries finds what one scan finds. The induction is on the entries: the first
one ends the search, answers it, or is passed over. -/
theorem lookup_ofEntries (h : ∀ e ∈ items, Plain e) (slot : String) (within : Bool) :
    (ofEntries items).lookup slot within
      = ((inReach within items).findIdx? (holdsSlot slot)).bind fun i =>
          items[i]?.map fun e => ((splitPair e).2, ofEntries (items.drop (i + 1))) := by
  induction items with
  | nil =>
    rw [lookup_eq, nextSlot, entries_ofEntries h]
    cases within <;> rfl
  | cons e items ih =>
    -- what follows is plain as well, so it is read as it is when the search goes on
    have ih := ih fun d hd => h d (List.mem_cons_of_mem _ hd)
    rw [lookup_cons h, inReach_cons]
    by_cases hstop : (within && isMarker e) = true
    · rw [if_pos hstop, if_pos hstop]
      rfl
    rw [if_neg hstop, if_neg hstop, List.findIdx?_cons]
    by_cases hholds : holdsSlot slot e = true
    · rw [if_pos hholds, if_pos hholds]
      rfl
    · rw [if_neg hholds, if_neg hholds, ih, Option.bind_map]
      rfl

/-- A search for a slot finds what one scan of the entries finds. -/
theorem lookup_eq_scan (a : AssocList) (slot : String) (within : Bool) :
    a.lookup slot within
      = (a.slotIndex? slot within).bind fun i =>
          a.entries[i]?.map fun e => ((splitPair e).2, ofEntries (a.entries.drop (i + 1))) := by
  have hplain : ∀ e ∈ a.entries, Plain e := fun e he => plain_of_mem_entries he
  rw [lookup_congr (entries_ofEntries hplain).symm, lookup_ofEntries hplain]
  rfl

/-- The value is that of the entry at which one scan stops. -/
theorem slotValue_eq_scan (a : AssocList) (slot : String) (within : Bool) :
    a.slotValue slot within
      = (a.slotIndex? slot within).bind fun i => a.entries[i]?.map fun e => (splitPair e).2 := by
  rw [slotValue, lookup_eq_scan, Option.map_bind]
  simp only [Function.comp_def, Option.map_map]

/-- Where a scan stops there is an entry. -/
theorem exists_of_slotIndex? {i : Nat} (h : a.slotIndex? slot within = some i) :
    ∃ e, a.entries[i]? = some e ∧ holdsSlot slot e = true := by
  obtain ⟨hlt, hholds, _⟩ := List.findIdx?_eq_some_iff_getElem.1 h
  have hprefix : inReach within a.entries <+: a.entries := by
    cases within with
    | false => exact List.prefix_refl _
    | true => exact List.takeWhile_prefix _
  refine ⟨_, ?_, hholds⟩
  exact List.prefix_iff_getElem?.1 hprefix i hlt

/-- A search finds something just if a scan stops. -/
theorem lookup_isSome (a : AssocList) (slot : String) (within : Bool) :
    (a.lookup slot within).isSome = (a.slotIndex? slot within).isSome := by
  rw [lookup_eq_scan]
  cases h : a.slotIndex? slot within with
  | none => rfl
  | some i =>
    obtain ⟨e, he, _⟩ := exists_of_slotIndex? h
    simp [he]

/-- There is a slot if one of the entries in reach holds it. -/
theorem hasSlot_eq_any (a : AssocList) (slot : String) (within : Bool) :
    a.hasSlot slot within = (inReach within a.entries).any (holdsSlot slot) := by
  rw [hasSlot, findSlot, Option.isSome_map, lookup_isSome, slotIndex?, List.findIdx?_isSome]

/-! ## Markers -/

/-- A search for a marker, unfolded once. -/
theorem findMarker_eq (a : AssocList) (marker : String) :
    a.findMarker marker
      = match a.nextMarker with
        | none => none
        | some (kind, rest) =>
          if Text.sameFolded kind marker then some rest else rest.findMarker marker := by
  rw [findMarker]
  split <;> rename_i h <;> rw [h]

theorem findMarker_congr (h : a.entries = b.entries) (marker : String) :
    a.findMarker marker = b.findMarker marker := by
  rw [findMarker_eq a, findMarker_eq b, nextMarker, nextMarker, h]

/-- One step of it: it stops at the marker and goes on behind every other entry. -/
theorem findMarker_cons (h : ∀ d ∈ e :: items, Plain d) (marker : String) :
    (ofEntries (e :: items)).findMarker marker
      = if isMarkerNamed marker e then some (ofEntries items)
        else (ofEntries items).findMarker marker := by
  have hrest : ∀ d ∈ items, Plain d := fun d hd => h d (List.mem_cons_of_mem _ hd)
  rw [findMarker_eq, nextMarker, entries_ofEntries h, scanMarker, isMarkerNamed]
  by_cases hmarker : isMarker e = true
  · rw [if_pos hmarker, hmarker, Bool.true_and]
    rfl
  -- what is no marker is passed over by the scan
  · rw [if_neg hmarker, Bool.eq_false_iff.2 hmarker, Bool.false_and, if_neg Bool.false_ne_true,
      findMarker_eq (ofEntries items), nextMarker, entries_ofEntries hrest]

/-- In plain entries it finds what one scan finds. -/
theorem findMarker_ofEntries (h : ∀ e ∈ items, Plain e) (marker : String) :
    (ofEntries items).findMarker marker
      = (items.findIdx? (isMarkerNamed marker)).map fun i => ofEntries (items.drop (i + 1)) := by
  induction items with
  | nil =>
    rw [findMarker_eq, nextMarker, entries_ofEntries h]
    rfl
  | cons e items ih =>
    have ih := ih fun d hd => h d (List.mem_cons_of_mem _ hd)
    rw [findMarker_cons h, List.findIdx?_cons]
    by_cases hnamed : isMarkerNamed marker e = true
    · rw [if_pos hnamed, if_pos hnamed]
      rfl
    · rw [if_neg hnamed, if_neg hnamed, ih, Option.map_map]
      rfl

/-- A search for a marker finds what one scan of the entries finds. -/
theorem findMarker_eq_scan (a : AssocList) (marker : String) :
    a.findMarker marker
      = (a.markerIndex? marker).map fun i => ofEntries (a.entries.drop (i + 1)) := by
  have hplain : ∀ e ∈ a.entries, Plain e := fun e he => plain_of_mem_entries he
  rw [findMarker_congr (entries_ofEntries hplain).symm, findMarker_ofEntries hplain]
  rfl

/-! ## All questions -/

/-- What is left after a pair is a smaller list, so no search for a slot goes on for ever. -/
theorem wellFounded_nextSlot (within : Bool) :
    WellFounded fun (rest a : AssocList) =>
      ∃ name value, a.nextSlot within = some (name, value, rest) :=
  Subrelation.wf (fun ⟨_, _, h⟩ => tabs_nextSlot_lt h) (measure tabs).wf

/-- What is left after a marker is a smaller list, so no search for a marker goes on for ever. -/
theorem wellFounded_nextMarker :
    WellFounded fun (rest a : AssocList) => ∃ kind, a.nextMarker = some (kind, rest) :=
  Subrelation.wf (fun ⟨_, h⟩ => tabs_nextMarker_lt h) (measure tabs).wf

/-- Whatever text a list is, a search for a slot or a marker answers by the first entry in reach that
one scan of the entries comes to: with its value, or with what follows it. If there is none, the value
is the one that was given for this case. All these searches end. -/
theorem searches_scan_once (a : AssocList) (slot marker : String) (within : Bool) :
    (match a.slotIndex? slot within with
      | some i => ∃ e, a.entries[i]? = some e
          ∧ (∀ default, (a.slotValue slot within).or default = some (splitPair e).2)
          ∧ a.findSlot slot within = some (ofEntries (a.entries.drop (i + 1)))
          ∧ a.hasSlot slot within = true
      | none => (∀ default, (a.slotValue slot within).or default = default)
          ∧ a.findSlot slot within = none ∧ a.hasSlot slot within = false)
      ∧ (match a.markerIndex? marker with
        | some i => a.findMarker marker = some (ofEntries (a.entries.drop (i + 1)))
            ∧ a.hasMarker marker = true
        | none => a.findMarker marker = none ∧ a.hasMarker marker = false)
      ∧ (WellFounded fun (rest a : AssocList) =>
          ∃ name value, a.nextSlot within = some (name, value, rest))
      ∧ WellFounded fun (rest a : AssocList) => ∃ kind, a.nextMarker = some (kind, rest) := by
  refine ⟨?_, ?_, wellFounded_nextSlot within, wellFounded_nextMarker⟩
  -- all searches for a slot are made of one look-up, and that is a scan of the entries
  · have hscan := lookup_eq_scan a slot within
    cases hindex : a.slotIndex? slot within with
    | none =>
      have hlookup : a.lookup slot within = none := by rw [hscan, hindex, Option.bind_none]
      simp [slotValue, findSlot, hasSlot, hlookup]
    | some i =>
      obtain ⟨e, he, _⟩ := exists_of_slotIndex? hindex
      have hlookup : a.lookup slot within
          = some ((splitPair e).2, ofEntries (a.entries.drop (i + 1))) := by
        rw [hscan, hindex, Option.bind_some, he, Option.map_some]
      refine ⟨e, he, ?_⟩
      simp [slotValue, findSlot, hasSlot, hlookup]
  -- so are the searches for a marker
  · have hscan := findMarker_eq_scan a marker
    cases hindex : a.markerIndex? marker with
    | none =>
      rw [hindex, Option.map_none] at hscan
      exact ⟨hscan, by rw [hasMarker, hscan]; rfl⟩
    | some i =>
      rw [hindex, Option.map_some] at hscan
      exact ⟨hscan, by rw [hasMarker, hscan]; rfl⟩

end Utterance.AssocList
