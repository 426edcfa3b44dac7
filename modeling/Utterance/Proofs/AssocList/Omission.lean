import Utterance.Proofs.AssocList.Phrases
import Utterance.Proofs.AssocList.Search

/-!
# Entries that are left out

Many questions about an association list are blind to some kind of entries: a search for a slot passes
markers over, and a search for a marker passes over all other markers. Such a question has one answer
for a list and for what remains of it when some of these entries are left out, wherever they stand. A
search comes to the same entry in both, and of what follows it the same kind of entries is left out, so
this can be said again of the next search. The entries of a derivation without closing markers are what
remains of those with them.
-/

namespace Utterance.AssocList

/-- `Omits p es fs`: the entries `fs` are the entries `es` without some of those that satisfy `p`. -/
inductive Omits (p : String → Bool) : List String → List String → Prop where
  | nil : Omits p [] []
  | keep {es fs : List String} (e : String) (rest : Omits p es fs) : Omits p (e :: es) (e :: fs)
  | leave {es fs : List String} {e : String} (idle : p e = true) (rest : Omits p es fs) :
      Omits p (e :: es) fs

variable {p q : String → Bool} {es fs : List String} {e : String}

namespace Omits

/-- Nothing needs to be left out. -/
theorem refl (p : String → Bool) (es : List String) : Omits p es es := by
  induction es with
  | nil => exact .nil
  | cons e es ih => exact .keep e ih

/-- What may be left out of two rows may be left out of both together. -/
theorem append {es' fs' : List String} (h : Omits p es fs) (h' : Omits p es' fs') :
    Omits p (es ++ es') (fs ++ fs') := by
  induction h with
  | nil => exact h'
  | keep e _ ih => exact .keep e ih
  | leave idle _ ih => exact .leave idle ih

/-- Nothing is added. -/
theorem subset (h : Omits p es fs) : ∀ e ∈ fs, e ∈ es := by
  induction h with
  | nil => exact fun _ he => he
  | keep d _ ih =>
    intro e he
    rcases List.mem_cons.1 he with rfl | he
    · exact List.mem_cons_self ..
    · exact List.mem_cons_of_mem _ (ih e he)
  | leave _ _ ih => exact fun e he => List.mem_cons_of_mem _ (ih e he)

/-- What is missing was left out. -/
theorem mem_or (h : Omits p es fs) (he : e ∈ es) : e ∈ fs ∨ p e = true := by
  induction h with
  | nil => cases he
  | keep d _ ih =>
    rcases List.mem_cons.1 he with rfl | he
    · exact .inl (List.mem_cons_self ..)
    · exact (ih he).imp_left (List.mem_cons_of_mem _)
  | leave idle _ ih =>
    rcases List.mem_cons.1 he with rfl | he
    · exact .inr idle
    · exact ih he

/-! ### Questions that are blind to what is left out -/

/-- What is asked for is not left out, so all that satisfies it stays, in the same order. -/
theorem filter_eq (h : Omits p es fs) (hq : ∀ e, p e = true → q e = false) :
    es.filter q = fs.filter q := by
  induction h with
  | nil => rfl
  | keep e _ ih => simp only [List.filter_cons, ih]
  | leave idle _ ih => rw [List.filter_cons_of_neg (by simp [hq _ idle]), ih]

/-- Nor does it matter whether there is any. -/
theorem any_eq (h : Omits p es fs) (hq : ∀ e, p e = true → q e = false) : es.any q = fs.any q := by
  induction h with
  | nil => rfl
  | keep e _ ih => simp only [List.any_cons, ih]
  | leave idle _ ih => rw [List.any_cons, hq _ idle, Bool.false_or, ih]

/-- What is left out may be there or not, if it is allowed anyway. -/
theorem all_eq (h : Omits p es fs) (hq : ∀ e, p e = true → q e = true) : es.all q = fs.all q := by
  induction h with
  | nil => rfl
  | keep e _ ih => simp only [List.all_cons, ih]
  | leave idle _ ih => rw [List.all_cons, hq _ idle, Bool.true_and, ih]

/-- A search stops at the same entry in both, or in none, if it never stops at an entry that may be
left out. What follows is the same again but for such entries. -/
theorem findIdx?_cases (h : Omits p es fs) (hq : ∀ e, p e = true → q e = false) :
    (es.findIdx? q = none ∧ fs.findIdx? q = none)
      ∨ ∃ i j, es.findIdx? q = some i ∧ fs.findIdx? q = some j ∧ es[i]? = fs[j]?
        ∧ Omits p (es.drop (i + 1)) (fs.drop (j + 1)) := by
  induction h with
  | nil => exact .inl ⟨rfl, rfl⟩
  | keep e rest ih =>
    simp only [List.findIdx?_cons]
    cases hqe : q e with
    | true => exact .inr ⟨0, 0, by simp, by simp, rfl, rest⟩
    | false =>
      rcases ih with ⟨hes, hfs⟩ | ⟨i, j, hes, hfs, hsame, hrest⟩
      · exact .inl ⟨by simp [hes], by simp [hfs]⟩
      · exact .inr ⟨i + 1, j + 1, by simp [hes], by simp [hfs], by simpa using hsame, hrest⟩
  -- an entry that was left out is passed over, so the search goes on behind it
  | leave idle _ ih =>
    simp only [List.findIdx?_cons, hq _ idle, Bool.false_eq_true, if_false]
    rcases ih with ⟨hes, hfs⟩ | ⟨i, j, hes, hfs, hsame, hrest⟩
    · exact .inl ⟨by simp [hes], hfs⟩
    · exact .inr ⟨i + 1, j, by simp [hes], hfs, by simpa using hsame, hrest⟩

end Omits

/-! ## Bare markers -/

/-- There are three bare markers. -/
theorem isClosing_cases (h : isClosing e = true) : e = "!" ∨ e = "$" ∨ e = "%" := by
  simp only [isClosing, Bool.and_eq_true, decide_eq_true_eq] at h
  obtain ⟨hmarker, hlength⟩ := h
  rw [isMarker] at hmarker
  rw [← String.length_toList] at hlength
  rcases hcs : e.toList with _ | ⟨c, _ | ⟨d, cs⟩⟩
  · simp [hcs] at hmarker
  · simp only [hcs, List.head?_cons, Option.any_some, isMarkerChar, Bool.or_eq_true,
      beq_iff_eq] at hmarker
    rw [← String.ofList_toList (s := e), hcs]
    rcases hmarker with (rfl | rfl) | rfl
    · exact .inl rfl
    · exact .inr (.inl rfl)
    · exact .inr (.inr rfl)
  -- with a second character it would be too long
  · simp [hcs] at hlength

theorem isMarker_of_isClosing (h : isClosing e = true) : isMarker e = true := by
  rw [isClosing, Bool.and_eq_true] at h
  exact h.1

/-! ## Searches in a list -/

variable {a b : AssocList}

theorem isPair_of_isMarker (h : isMarker e = true) : isPair e = false := by
  rw [isPair, h, Bool.not_true, Bool.and_false]

theorem holdsSlot_of_isMarker (h : isMarker e = true) (slot : String) : holdsSlot slot e = false := by
  rw [holdsSlot, isPair_of_isMarker h, Bool.false_and]

/-- Whether there is a slot does not depend on the markers. -/
theorem Omits.hasSlot_eq (h : Omits p a.entries b.entries) (hp : ∀ e, p e = true → isMarker e = true)
    (slot : String) : a.hasSlot slot false = b.hasSlot slot false := by
  rw [hasSlot_eq_any, hasSlot_eq_any]
  exact h.any_eq fun e he => holdsSlot_of_isMarker (hp e he) slot

/-- Nor does its value. -/
theorem Omits.slotValue_eq (h : Omits p a.entries b.entries)
    (hp : ∀ e, p e = true → isMarker e = true) (slot : String) :
    a.slotValue slot false = b.slotValue slot false := by
  -- only markers are left out, and a marker holds no slot
  have hblind : ∀ e, p e = true → holdsSlot slot e = false :=
    fun e he => holdsSlot_of_isMarker (hp e he) slot
  rw [slotValue_eq_scan, slotValue_eq_scan]
  rcases h.findIdx?_cases hblind with ⟨ha, hb⟩ | ⟨i, j, ha, hb, hsame, _⟩
  · rw [show a.slotIndex? slot false = none from ha, show b.slotIndex? slot false = none from hb,
      Option.bind_none, Option.bind_none]
  · rw [show a.slotIndex? slot false = some i from ha, show b.slotIndex? slot false = some j from hb,
      Option.bind_some, Option.bind_some, hsame]

/-- A search for a marker that is not left out comes to it in both lists, or in none. Behind it the
same entries may be left out, so a search can go on from there. -/
theorem Omits.findMarker_cases (h : Omits p a.entries b.entries) {marker : String}
    (hp : ∀ e, p e = true → isMarkerNamed marker e = false) :
    (a.findMarker marker = none ∧ b.findMarker marker = none)
      ∨ ∃ a' b', a.findMarker marker = some a' ∧ b.findMarker marker = some b'
        ∧ Omits p a'.entries b'.entries := by
  rw [findMarker_eq_scan, findMarker_eq_scan]
  rcases h.findIdx?_cases hp with ⟨ha, hb⟩ | ⟨i, j, ha, hb, _, hrest⟩
  · rw [show a.markerIndex? marker = none from ha, show b.markerIndex? marker = none from hb]
    exact .inl ⟨rfl, rfl⟩
  · rw [show a.markerIndex? marker = some i from ha, show b.markerIndex? marker = some j from hb]
    refine .inr ⟨_, _, rfl, rfl, ?_⟩
    rw [entries_ofEntries_of_subset fun e he => List.mem_of_mem_drop he,
      entries_ofEntries_of_subset fun e he => List.mem_of_mem_drop he]
    exact hrest

/-! ## Lists that are put together -/

/-- A text is cut where a separator follows, so the pieces of what follows come after it less the
empty first one. -/
theorem pieces_append_of_head {sep : Char} {rest : List Char} (h : ∀ c ∈ rest.head?, c = sep)
    (cs : List Char) :
    Text.pieces sep (cs ++ rest) = Text.pieces sep cs ++ (Text.pieces sep rest).drop 1 := by
  induction cs with
  | nil =>
    cases rest with
    | nil => rfl
    | cons c rest =>
      have hc : c = sep := h c rfl
      simp [Text.pieces, hc]
  | cons c cs ih =>
    rw [List.cons_append, Text.pieces, Text.pieces, ih]
    split
    · rfl
    -- there is a first piece always, which the character goes to
    · have hlength := length_pieces sep cs
      cases hpieces : Text.pieces sep cs with
      | nil => simp [hpieces] at hlength
      | cons first more => rfl

/-- The pieces of a list that is put together are those of its texts. -/
theorem drop_pieces_ofEntries (es : List String) :
    (Text.pieces '\t' (ofEntries es).text.toList).drop 1
      = es.flatMap fun e => Text.pieces '\t' e.toList := by
  induction es with
  | nil => rfl
  | cons e es ih =>
    have htext : (ofEntries (e :: es)).text.toList
        = '\t' :: (e.toList ++ (ofEntries es).text.toList) := by
      simp [text_ofEntries, String.join_cons]
    -- what comes next starts with the tab of the next entry, so the entry ends there
    have hhead : ∀ c ∈ (ofEntries es).text.toList.head?, c = '\t' := by
      cases es with
      | nil => simp [text_ofEntries]
      | cons d es => simp [text_ofEntries, String.join_cons]
    rw [htext, Text.pieces, if_pos rfl, List.drop_one, List.tail_cons, pieces_append_of_head hhead,
      ih, List.flatMap_cons]

/-- A list that is put together from texts has the entries of these texts, one after the other. -/
theorem entries_ofEntries_cons (e : String) (es : List String) :
    (ofEntries (e :: es)).entries = (ofEntries [e]).entries ++ (ofEntries es).entries := by
  simp only [entries, entryChars, drop_pieces_ofEntries, List.flatMap_cons, List.flatMap_nil,
    List.append_nil, List.filter_append, List.map_append]

/-- What may be left out of the texts may be left out of their entries. The texts that stay may be
cut in any way, as both lists cut them alike; one that is left out must be read back as it is. -/
theorem Omits.entries_ofEntries (h : Omits p es fs) (hp : ∀ e, p e = true → Plain e) :
    Omits p (ofEntries es).entries (ofEntries fs).entries := by
  induction h with
  | nil => exact .refl _ _
  | @keep es fs e _ ih =>
    rw [entries_ofEntries_cons e es, entries_ofEntries_cons e fs]
    exact (Omits.refl p _).append ih
  | @leave es fs e idle _ ih =>
    have hread : (ofEntries [e]).entries = [e] :=
      AssocList.entries_ofEntries fun d hd => by rw [List.mem_singleton.1 hd]; exact hp e idle
    rw [entries_ofEntries_cons e es, hread]
    exact .leave idle ih

/-! ## Derivations with and without closing markers -/

/-- A node leaves out its closing marker, if it has one. -/
theorem omits_enclose {label : String} {es fs : List String} (h : Omits isClosing es fs) :
    Omits isClosing (enclose true label es) (enclose false label fs) := by
  rw [enclose, enclose]
  apply Omits.append ((Omits.refl _ _).append h)
  rw [closed, closed, Bool.true_and, Bool.false_and, if_neg Bool.false_ne_true]
  cases hmarker : isMarker label with
  | false => exact .nil
  | true =>
    rw [isMarker] at hmarker
    cases hlabel : label.toList with
    | nil => simp [hlabel] at hmarker
    | cons c cs =>
      have hc : isMarkerChar c = true := by simpa [hlabel] using hmarker
      -- the marker that closes a phrase is the first character of its name alone
      exact .leave (track_close hc []).1 .nil

/-- A bare marker is read as it is. -/
theorem plain_of_isClosing {e : String} (h : isClosing e = true) : Plain e := by
  rcases isClosing_cases h with rfl | rfl | rfl <;> exact ⟨by decide, by decide, by decide⟩

end Utterance.AssocList

namespace Utterance.Tree

open AssocList (Omits isClosing)

variable {g : Grammar} {spelling : List String}

mutual

/-- Without some of its bare markers a node has the entries that it has if no phrase is closed. -/
theorem omits_entries (label : String) : (t : Tree) →
    Omits isClosing (t.entries g spelling true label) (t.entries g spelling false label)
  | .word => by
    rw [entries, entries]
    exact .nil
  | .node rule start stop parts => by
    rw [entries, entries]
    apply AssocList.omits_enclose
    -- the entries inside a slot do not show, so there is nothing to leave out
    split
    · exact omits_entriesOf _ parts
    · exact .refl _ _

/-- The same of all parts, one after the other. The steps go along with the parts, and words among
them give no entries. -/
theorem omits_entriesOf (steps : List Step) : (parts : List Tree) →
    Omits isClosing (entriesOf g spelling true steps parts)
      (entriesOf g spelling false steps parts)
  | [] => by
    rw [entriesOf_nil, entriesOf_nil]
    exact .nil
  | part :: rest => by
    match steps with
    | [] =>
      rw [entriesOf, entriesOf]
      exact .nil
    | step :: steps =>
      rw [entriesOf, entriesOf]
      apply Omits.append
      · split
        · exact omits_entries step.symbol part
        · exact .nil
      · exact omits_entriesOf steps rest

end

end Utterance.Tree
