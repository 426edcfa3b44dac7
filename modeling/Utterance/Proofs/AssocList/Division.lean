import Utterance.Proofs.AssocList.Search

/-!
# Dividing off a phrase

A phrase is divided off at its first marker, and the bare marker that closes it is found by counting:
a marker with a name opens an inner phrase, a bare marker closes the innermost one. Two searches count
in this way, one from the opening marker on and one from behind it. They come to the same bare marker,
because the depth that the second starts with is the one that the first has behind the opening marker.
So the entries before the phrase, its marker, its body, its closing marker and what follows are all the
entries of the list, in order.
-/

namespace Utterance.AssocList

variable {a : AssocList} {items before body after : List String} {e marker : String} {n : Nat}

/-! ## Counting open phrases -/

/-- Number of open phrases after an entry. There is none if a bare marker has nothing to close. -/
def depthAfter (depth : Nat) (entry : String) : Option Nat :=
  if !isMarker entry then some depth
  else if 1 < entry.length then some (depth + 1)
  else if depth = 0 then none
  else some (depth - 1)

/-- Number of open phrases after some entries. -/
def depthAfterAll (depth : Nat) (entries : List String) : Option Nat :=
  entries.foldlM depthAfter depth

theorem depthAfterAll_cons (n : Nat) (e : String) (items : List String) :
    depthAfterAll n (e :: items) = (depthAfter n e).bind fun n => depthAfterAll n items :=
  List.foldlM_cons

/-- Only a bare marker has nothing to close, and only if no phrase is open. -/
theorem depthAfter_eq_none (h : depthAfter n e = none) : n = 0 ∧ isClosing e = true := by
  unfold depthAfter at h
  split at h
  · cases h
  · rename_i hmarker
    split at h
    · cases h
    · rename_i hlength
      split at h
      · rename_i hzero
        refine ⟨hzero, ?_⟩
        rw [isClosing, Bool.and_eq_true, decide_eq_true_eq]
        exact ⟨by simpa using hmarker, Nat.le_of_not_lt hlength⟩
      · cases h

/-- A bare marker is one character. -/
theorem length_of_isClosing (h : isClosing e = true) : e.length = 1 := by
  rw [isClosing, Bool.and_eq_true, decide_eq_true_eq] at h
  obtain ⟨hmarker, hle⟩ := h
  have hpos := List.length_pos_of_ne_nil (ne_nil_of_isMarker hmarker)
  rw [String.length_toList] at hpos
  omega

/-! ## The closing marker -/

/-- One step of the search: it ends at an entry that has nothing to close, and goes on behind any other
entry with the depth after it. -/
theorem scanClose_cons (n : Nat) (e : String) (items : List String) :
    scanClose n (e :: items)
      = match depthAfter n e with
        | none => some ([], items)
        | some m => (scanClose m items).map fun (body, after) => (e :: body, after) := by
  rw [scanClose, depthAfter]
  by_cases hmarker : isMarker e = true
  · by_cases hlength : 1 < e.length
    · simp [hmarker, hlength]
    · cases n with
      | zero => simp [hmarker, hlength]
      | succ n => simp [hmarker, hlength, show ((n : Int) + 1 ≠ 0) by omega]
  · simp [hmarker]

/-- What is found is a bare marker, and in front of it every phrase that is opened is closed. The
induction is on the entries, for any number of phrases that are open before them. -/
theorem exists_of_scanClose (h : scanClose n items = some (body, after)) :
    ∃ close, isClosing close = true ∧ items = body ++ close :: after
      ∧ depthAfterAll n body = some 0 := by
  induction items generalizing n body with
  | nil => cases h
  | cons e items ih =>
    rw [scanClose_cons] at h
    cases hdepth : depthAfter n e with
    -- an entry that closes more than is open is the end of the phrase, any other is inside it
    | none =>
      rw [hdepth] at h
      cases h
      obtain ⟨rfl, hclosing⟩ := depthAfter_eq_none hdepth
      exact ⟨e, hclosing, rfl, rfl⟩
    | some m =>
      rw [hdepth, Option.map_eq_some_iff] at h
      obtain ⟨⟨inner, rest⟩, hscan, heq⟩ := h
      cases heq
      obtain ⟨close, hclosing, hitems, hinner⟩ := ih hscan
      refine ⟨close, hclosing, by rw [hitems, List.cons_append], ?_⟩
      rw [depthAfterAll_cons, hdepth, Option.bind_some, hinner]

/-- If nothing is found, every bare marker closes an inner phrase: the one that would close the
outer phrase ends the search. -/
theorem isSome_of_scanClose (h : scanClose n items = none) : (depthAfterAll n items).isSome = true := by
  induction items generalizing n with
  | nil => rfl
  | cons e items ih =>
    rw [scanClose_cons] at h
    cases hdepth : depthAfter n e with
    | none =>
      rw [hdepth] at h
      cases h
    | some m =>
      rw [hdepth, Option.map_eq_none_iff] at h
      rw [depthAfterAll_cons, hdepth, Option.bind_some]
      exact ih h

/-- A search that is still to come to the opening marker has depth zero behind it. What stands
before the marker belongs to the body that is divided off, unless it is dropped later. -/
theorem scanClose_skip (hbefore : ∀ e ∈ before, isMarker e = false) (hmarker : isMarker marker = true)
    (hlength : 1 < marker.length) (items : List String) :
    scanClose (-1) (before ++ marker :: items)
      = (scanClose 0 items).map fun (body, after) => (before ++ marker :: body, after) := by
  induction before with
  | nil => simp [scanClose, hmarker, hlength]
  | cons e before ih =>
    have he : isMarker e = false := hbefore e (List.mem_cons_self ..)
    have hrest := ih fun d hd => hbefore d (List.mem_cons_of_mem _ hd)
    rw [List.cons_append, scanClose]
    simp [he, hrest, Function.comp_def]

/-! ## The opening marker -/

/-- The search for a marker fails just if there is none. -/
theorem scanMarker_eq_none_iff : scanMarker items = none ↔ ∀ e ∈ items, isMarker e = false := by
  induction items with
  | nil => simp [scanMarker]
  | cons e items ih =>
    rw [scanMarker, List.forall_mem_cons]
    cases isMarker e <;> simp [ih]

/-- The first marker, with the entries before and after it. A scan for markers stops there as well. -/
theorem exists_of_find?_isMarker (h : items.find? isMarker = some marker) :
    ∃ before after, items = before ++ marker :: after ∧ (∀ e ∈ before, isMarker e = false)
      ∧ scanMarker items = some (marker, after) := by
  induction items with
  | nil => cases h
  | cons e items ih =>
    rw [scanMarker]
    cases he : isMarker e with
    | true =>
      rw [List.find?_cons_of_pos he] at h
      cases h
      exact ⟨[], items, rfl, List.forall_mem_nil _, rfl⟩
    | false =>
      rw [List.find?_cons_of_neg (by simp [he])] at h
      obtain ⟨before, after, rfl, hbefore, hscan⟩ := ih h
      refine ⟨e :: before, after, rfl, ?_, hscan⟩
      rw [List.forall_mem_cons]
      exact ⟨he, hbefore⟩

/-! ## The whole list -/

/-- A phrase can be divided off unless the list has no marker. If its first marker has a name, the
entries before it, the marker, the body, the closing marker and the remainder are the entries of the
list. Either the body closes every phrase that it opens and no other, and the remainder is what follows
the closing marker of the list; or the phrase is not closed, and there is no remainder. -/
theorem splitPhrase_partitions (a : AssocList) :
    (a.splitPhrase = none ↔ ∀ e ∈ a.entries, isMarker e = false)
      ∧ ∀ marker, a.entries.find? isMarker = some marker → 1 < marker.length →
        ∃ body rest before close, a.splitPhrase = some (marker, body, rest)
          ∧ a.entries = before ++ [marker] ++ body.entries ++ close ++ rest.entries
          ∧ (∀ e ∈ before, isMarker e = false)
          ∧ ((∃ e, close = [e] ∧ isMarker e = true ∧ e.length = 1
              ∧ depthAfterAll 0 body.entries = some 0 ∧ a.closePhrase true = some rest)
            ∨ (close = [] ∧ rest = ⟨""⟩ ∧ (depthAfterAll 0 body.entries).isSome = true
              ∧ a.closePhrase true = none)) := by
  constructor
  · rw [splitPhrase, Option.map_eq_none_iff, scanMarker_eq_none_iff]
  intro marker hfind hlength
  have hmarker : isMarker marker = true := List.find?_some hfind
  obtain ⟨before, after, hentries, hbefore, hscan⟩ := exists_of_find?_isMarker hfind
  have hclose := scanClose_skip hbefore hmarker hlength after
  rw [← hentries] at hclose
  -- what was read is read again, so body and remainder have the entries that they are put together from
  have hread : ∀ items, (∀ e ∈ items, e ∈ after) → (ofEntries items).entries = items := by
    intro items hsub
    apply entries_ofEntries_of_subset (a := a)
    intro e he
    rw [hentries]
    exact List.mem_append_right _ (List.mem_cons_of_mem _ (hsub e he))
  -- the phrase is never closed, or closed by the first bare marker at its own depth
  cases hfound : scanClose 0 after with
  | none =>
    rw [hfound, Option.map_none] at hclose
    refine ⟨ofEntries after, ⟨""⟩, before, [], ?_, ?_, hbefore, .inr ⟨rfl, rfl, ?_, ?_⟩⟩
    · simp only [splitPhrase, hscan, Option.map_some, hfound]
    · rw [hread after fun _ => id, hentries]
      simp [entries, entryChars, Text.pieces]
    · rw [hread after fun _ => id]
      exact isSome_of_scanClose hfound
    · rw [closePhrase, if_pos rfl, hclose, Option.map_none]
  | some found =>
    obtain ⟨inside, rest⟩ := found
    obtain ⟨close, hclosing, rfl, hdepth⟩ := exists_of_scanClose hfound
    rw [hfound, Option.map_some] at hclose
    have hinside : (ofEntries inside).entries = inside :=
      hread inside fun e he => List.mem_append_left _ he
    have hrest : (ofEntries rest).entries = rest :=
      hread rest fun e he => List.mem_append_right _ (List.mem_cons_of_mem _ he)
    refine ⟨ofEntries inside, ofEntries rest, before, [close], ?_, ?_, hbefore,
      .inl ⟨close, rfl, ?_, length_of_isClosing hclosing, ?_, ?_⟩⟩
    · simp only [splitPhrase, hscan, Option.map_some, hfound]
    · rw [hinside, hrest, hentries]
      simp
    · rw [isClosing, Bool.and_eq_true] at hclosing
      exact hclosing.1
    · rw [hinside]
      exact hdepth
    · rw [closePhrase, if_pos rfl, hclose, Option.map_some]

/-- A phrase with an inner phrase is divided off up to the second bare marker. -/
theorem splitPhrase_partitions_grab :
    let a : AssocList := ⟨"\tYES=yes\t!grab\t$obj\tAKO=block\t$\tDIR=left\t!\t%fact\tNAME=Ken"⟩
    let body : AssocList := ⟨"\t$obj\tAKO=block\t$\tDIR=left"⟩
    let rest : AssocList := ⟨"\t%fact\tNAME=Ken"⟩
    a.entries.find? isMarker = some "!grab" ∧ 1 < "!grab".length
      ∧ a.splitPhrase = some ("!grab", body, rest)
      ∧ ∃ before e, a.entries = before ++ ["!grab"] ++ body.entries ++ [e] ++ rest.entries
        ∧ (∀ e ∈ before, isMarker e = false) ∧ isMarker e = true ∧ e.length = 1
        ∧ depthAfterAll 0 body.entries = some 0 ∧ a.closePhrase true = some rest := by
  intro a body rest
  have hfind : a.entries.find? isMarker = some "!grab" := by decide
  have hsplit : a.splitPhrase = some ("!grab", body, rest) := by decide
  have hclose : a.closePhrase true = some rest := by decide
  obtain ⟨body', rest', before, close, hsplit', hparts, hbefore, hclosed⟩ :=
    (splitPhrase_partitions a).2 "!grab" hfind (by decide)
  rw [hsplit] at hsplit'
  cases hsplit'
  -- the phrase can be closed, which excludes the other case
  rcases hclosed with ⟨e, rfl, hmarker, hlength, hdepth, _⟩ | ⟨_, _, _, hnone⟩
  · exact ⟨hfind, by decide, hsplit, before, e, hparts, hbefore, hmarker, hlength, hdepth, hclose⟩
  · rw [hclose] at hnone
    cases hnone

end Utterance.AssocList
