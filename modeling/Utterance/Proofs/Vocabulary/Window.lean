import Mathlib.Data.List.Chain
import Utterance.Proofs.Vocabulary.Guess
import Utterance.Proofs.Vocabulary.Segments

/-!
# Windows over a text

A window starts before a text and moves on until it is past it. On its way each word of the text comes
into its middle once, with the two words before it and the three after it. So what a window finds is what
is found by looking at the words one after the other, each with the places around it: a place outside the
text is empty, and an earlier word that was guessed is a plain one.
-/

namespace Utterance

namespace Guess

variable {t : Tally} {w : Window} {s second first : Slot} {slots rest : List Slot}

/-! ## Looking at slots one after the other -/

/-- The tally of slots that are looked at one after the other, each with the two before it and the three
after it. -/
def Tally.walk (t : Tally) (second first : Slot) : List Slot → Tally
  | [] => t
  | here :: rest =>
    let w : Window := ⟨second, first, here, rest.getD 0 {}, rest.getD 1 {}, rest.getD 2 {}⟩
    (t.take here w.guess?).walk first w.settle.here rest

theorem Tally.take_empty (t : Tally) : t.take {} none = t := by
  simp [take, Slot.marked]

/-- An empty slot in a walk leaves the tally and stands behind the next one. -/
theorem Tally.walk_empty_cons (t : Tally) (second first : Slot) (rest : List Slot) :
    t.walk second first ({} :: rest) = t.walk first {} rest := by
  have htake : t.walk second first ({} :: rest) = (t.take {} none).walk first {} rest := rfl
  rw [htake, take_empty]

/-- A walk along empty slots leaves the tally. -/
theorem Tally.walk_of_forall_empty (h : ∀ s ∈ slots, s = {}) :
    t.walk second first slots = t := by
  induction slots generalizing second first with
  | nil => rfl
  | cons s rest ih =>
    obtain ⟨rfl, hrest⟩ := List.forall_mem_cons.1 h
    rw [walk_empty_cons, ih hrest]

/-- An empty slot at the end of a list is what one sees behind the list anyway. -/
theorem getD_append_empty (slots : List Slot) (i : Nat) :
    (slots ++ [({} : Slot)]).getD i {} = slots.getD i {} := by
  simp only [List.getD_eq_getElem?_getD, List.getElem?_append]
  split
  · rfl
  · rename_i hi
    rw [List.getElem?_eq_none (Nat.le_of_not_lt hi), List.getElem?_singleton]
    split <;> rfl

/-- An empty slot at the end changes nothing. -/
theorem Tally.walk_append_empty (t : Tally) (second first : Slot) (slots : List Slot) :
    t.walk second first (slots ++ [({} : Slot)]) = t.walk second first slots := by
  induction slots generalizing t second first with
  | nil => exact t.walk_empty_cons second first []
  | cons here rest ih =>
    rw [List.cons_append, walk, walk]
    simp only [getD_append_empty, ih]

/-! ## Moving a window -/

/-- What holds of a window and the slots that are still to come: nothing follows a slot without a
word, unless it is a word. This is what lets a window stop when it is past a text: all that it would
still look at is empty. -/
structure Window.Orderly (w : Window) (slots : List Slot) : Prop where
  empty : ∀ s ∈ w.ahead slots, s.isBare = true → s = {}
  chain : (w.ahead slots).IsChain fun s t => s.word = "" → t.word = "" → t.isBare = true
  words : ∀ s ∈ slots.dropLast, s.word ≠ ""

theorem Window.settle_eq (w : Window) : w.settle = { w with here := w.settle.here } := by
  unfold settle
  split <;> rfl

/-- What is ahead of a window that has moved on: what was behind its middle, with an empty slot at
the end if no slot came into the window. -/
theorem Window.ahead_next (w : Window) (slots : List Slot) :
    (w.settle.shift (slots.headD {})).ahead slots.tail
      = w.next :: w.afterNext :: w.last :: slots
      ∨ slots = [] ∧ (w.settle.shift (slots.headD {})).ahead slots.tail
        = (w.next :: w.afterNext :: w.last :: slots) ++ [({} : Slot)] := by
  rw [settle_eq]
  cases slots with
  | nil => exact .inr ⟨rfl, rfl⟩
  | cons s slots => exact .inl rfl

/-- A window that has moved on is orderly again. An empty slot that comes into it stands behind all
others. -/
theorem Window.Orderly.next (h : w.Orderly slots) :
    (w.settle.shift (slots.headD {})).Orderly slots.tail := by
  have htail := h.chain.tail
  -- the last slot of all is the only one that may lack a word
  have hwords : ∀ s ∈ slots.tail.dropLast, s.word ≠ "" := by
    cases slots with
    | nil => simp
    | cons s slots =>
      intro u hu
      cases slots with
      | nil => cases hu
      | cons s' slots => exact h.words u (List.mem_cons_of_mem _ hu)
  -- a slot came into the window, or the slots had run out
  rcases w.ahead_next slots with hahead | ⟨hnil, hahead⟩
  · refine ⟨?_, ?_, hwords⟩
    · rw [hahead]
      exact fun s hs => h.empty s (List.mem_cons_of_mem _ hs)
    · rw [hahead]
      exact htail
  · refine ⟨?_, ?_, hwords⟩
    · rw [hahead]
      intro s hs hbare
      rcases List.mem_append.1 hs with hs | hs
      · exact h.empty s (List.mem_cons_of_mem _ hs) hbare
      · exact List.mem_singleton.1 hs
    · rw [hahead, List.isChain_append]
      refine ⟨htail, List.isChain_singleton _, ?_⟩
      intro s hs u hu hword huword
      rw [Option.mem_some_iff.1 hu.symm]
      rfl

/-- Slots without words are bare behind a slot without a word. -/
theorem isBare_of_isChain (h : (s :: slots).IsChain fun s t => s.word = "" → t.word = "" → t.isBare = true)
    (hs : s.word = "") (hslots : ∀ u ∈ slots, u.word = "") : ∀ u ∈ slots, u.isBare = true := by
  induction slots generalizing s with
  | nil => exact fun u hu => nomatch hu
  | cons head slots ih =>
    obtain ⟨hhead, hrest⟩ := List.isChain_cons_cons.1 h
    obtain ⟨hword, hwords⟩ := List.forall_mem_cons.1 hslots
    exact List.forall_mem_cons.2 ⟨hhead hs hword, ih hrest hword hwords⟩

/-- A window that is past a text has nothing ahead. Its next slot is bare and the ones after it have
no words, and so have those that are still to come; in an orderly row such slots are empty. -/
theorem Window.Orderly.forall_ahead_next (h : w.Orderly slots)
    (hpast : (w.settle.shift (slots.headD {})).isPast = true) :
    ∀ s ∈ w.next :: w.afterNext :: w.last :: slots, s = {} := by
  rw [settle_eq] at hpast
  simp only [isPast, shift, Bool.and_eq_true, String.isEmpty_iff] at hpast
  obtain ⟨⟨⟨hnext, hafterNext⟩, hlast⟩, hhead⟩ := hpast
  have hword : w.next.word = "" := by
    simp only [Slot.isBare, Bool.and_eq_true, String.isEmpty_iff] at hnext
    exact hnext.2
  -- the slot that comes into the window is the last one
  have hslots : ∀ s ∈ slots, s.word = "" := by
    intro s hs
    cases slots with
    | nil => cases hs
    | cons u rest =>
      cases rest with
      | nil =>
        rw [List.mem_singleton.1 hs]
        exact hhead
      | cons u' rest => exact absurd hhead (h.words u (List.mem_cons_self ..))
  have hwords : ∀ s ∈ w.afterNext :: w.last :: slots, s.word = "" :=
    List.forall_mem_cons.2 ⟨hafterNext, List.forall_mem_cons.2 ⟨hlast, hslots⟩⟩
  have hbare := isBare_of_isChain h.chain.tail hword hwords
  intro s hs
  apply h.empty s (List.mem_cons_of_mem _ hs)
  rcases List.mem_cons.1 hs with rfl | hs
  · exact hnext
  · exact hbare s hs

/-- A walk along what is ahead of a window begins with the slot in its middle. -/
theorem Tally.walk_ahead (t : Tally) (w : Window) (slots : List Slot) :
    t.walk w.second w.first (w.ahead slots)
      = (t.take w.here w.guess?).walk w.first w.settle.here
        (w.next :: w.afterNext :: w.last :: slots) :=
  rfl

/-- A window finds what is found by looking at the slots ahead one after the other. It stops early,
but only where a walk finds nothing more. -/
theorem Window.Orderly.slide_eq (h : w.Orderly slots) :
    w.slide t slots = t.walk w.second w.first (w.ahead slots) := by
  fun_induction slide w t slots with
  | case1 w t slots t' next hpast =>
    rw [Tally.walk_ahead, Tally.walk_of_forall_empty (h.forall_ahead_next hpast)]
  | case2 w t slots t' next hpast ih =>
    have hbehind : next.second = w.first ∧ next.first = w.settle.here := by
      simp only [next]
      rw [settle_eq]
      exact ⟨rfl, rfl⟩
    rw [ih h.next, t.walk_ahead w slots, hbehind.1, hbehind.2]
    rcases w.ahead_next slots with hahead | ⟨-, hahead⟩
    · rw [hahead]
    · rw [hahead, Tally.walk_append_empty]

end Guess

/-! ## The slots of a text -/

namespace Segment

variable {segs : List Segment} {text : String}

/-- No word but the last is empty. The text after the last word makes a segment of its own. -/
theorem Cut.word_ne_empty (h : Cut segs) : ∀ s ∈ segs.dropLast, s.word ≠ "" := by
  induction segs with
  | nil => exact fun _ hs => nomatch hs
  | cons s rest ih =>
    cases rest with
    | nil => exact fun _ hs => nomatch hs
    | cons t rest => exact List.forall_mem_cons.2 ⟨h.2.1, ih h.2.2.2⟩

/-- A text with a character of a word has a word right after its first gap. -/
theorem word_ne_empty_of_mem_head? (h : ∃ c ∈ text.toList, isWordPart c = true) :
    ∀ s ∈ (ofText text).head?, s.word ≠ "" := by
  intro s hs hword
  obtain ⟨c, hc, hpart⟩ := h
  have hcut := cut_ofText text
  have htext := join_ofText text
  obtain ⟨rest, hsegs⟩ := List.head?_eq_some_iff.1 hs
  rw [hsegs] at hcut htext
  cases rest with
  | nil =>
    -- the text is a gap
    rw [← htext, toList_join] at hc
    simp only [List.flatMap_cons, List.flatMap_nil, hword, List.append_nil, String.toList_empty] at hc
    rw [hcut.gap c hc] at hpart
    cases hpart
  | cons t rest => exact hcut.2.1 hword

end Segment

namespace Vocabulary

/-- A word as a guess sees it: its stored form, or as it is written if it has none. -/
def shown (v : Vocabulary) (word : String) : String := (v.lookup word).getD word

theorem shown_empty (v : Vocabulary) : v.shown "" = "" := rfl

/-- No word but the empty one is shown as empty: a stored form is the small form of a word that has
characters. -/
theorem shown_eq_empty_iff (v : Vocabulary) {word : String} : v.shown word = "" ↔ word = "" := by
  refine ⟨fun h => ?_, fun h => by rw [h, shown_empty]⟩
  cases hlookup : v.lookup word with
  | none =>
    rw [shown, hlookup, Option.getD_none] at h
    exact h
  | some stored =>
    rw [shown, hlookup, Option.getD_some] at h
    unfold lookup at hlookup
    simp only at hlookup
    split at hlookup
    · cases hlookup
    · split at hlookup
      · rw [← Option.some.inj hlookup, Text.lower_eq_empty_iff] at h
        exact h
      · cases hlookup

/-- An unknown word has no stored form. -/
theorem shown_of_role_eq_unknown {v : Vocabulary} {word : String} (h : v.role word = .unknown) :
    v.shown word = word := by
  have hknown := (Guess.known_of_role_eq_unknown h).2
  cases hlookup : v.lookup word with
  | none => rw [shown, hlookup, Option.getD_none]
  | some stored => simp [known, hlookup, (Guess.known_of_role_eq_unknown h).1] at hknown

end Vocabulary

namespace Guess

open Vocabulary

variable {slots : List Slot} {segs : List Segment}

/-- The slot of a segment, with the word as it is shown. -/
theorem Slot.ofSegment_eq (v : Vocabulary) (s : Segment) :
    ofSegment v s = ⟨s.gap, v.shown s.word, v.role s.word == .unknown, v.role s.word⟩ := by
  unfold ofSegment
  simp only
  split
  · rename_i hrole
    rw [shown_of_role_eq_unknown (by simpa using hrole)]
  · rfl

/-- What holds of every slot but the last holds of each one that another follows. -/
theorem isChain_of_forall_dropLast {p : Slot → Prop} (h : ∀ s ∈ slots.dropLast, p s) :
    slots.IsChain fun s _ => p s := by
  induction slots with
  | nil => exact .nil
  | cons s rest ih =>
    cases rest with
    | nil => exact .singleton s
    | cons t rest =>
      obtain ⟨hs, hrest⟩ := List.forall_mem_cons.1 h
      exact .cons_cons hs (ih hrest)

/-- The slots of a text with a word in it can be moved over by a window that comes from before them.
All segments but the last have words, and the empty window adds empty slots in front. -/
theorem Window.orderly_empty (hcut : Segment.Cut segs)
    (hword : ∀ s ∈ segs.head?, s.word ≠ "") (v : Vocabulary) :
    empty.Orderly (segs.map (Slot.ofSegment v)) := by
  have hwords : ∀ s ∈ (segs.map (Slot.ofSegment v)).dropLast, s.word ≠ "" := by
    intro s hs
    rw [← List.map_dropLast] at hs
    obtain ⟨seg, hseg, rfl⟩ := List.mem_map.1 hs
    rw [Slot.ofSegment_eq]
    exact fun hshown => hcut.word_ne_empty seg hseg (v.shown_eq_empty_iff.1 hshown)
  refine ⟨?_, ?_, hwords⟩
  · intro s hs hbare
    rcases mem_ahead_empty hs with rfl | hs
    · rfl
    · obtain ⟨⟨gap, word⟩, -, rfl⟩ := List.mem_map.1 hs
      rw [Slot.ofSegment_eq] at hbare ⊢
      simp only [Slot.isBare, Bool.and_eq_true, String.isEmpty_iff, v.shown_eq_empty_iff] at hbare
      obtain ⟨rfl, rfl⟩ := hbare
      rfl
  · have hchain : (segs.map (Slot.ofSegment v)).IsChain
        fun s t => s.word = "" → t.word = "" → t.isBare = true :=
      (isChain_of_forall_dropLast hwords).imp fun s t hs hempty => absurd hempty hs
    -- the three empty slots in front, and then the first one of the text, which has a word
    refine .cons_cons (fun _ _ => rfl) (.cons_cons (fun _ _ => rfl) (.cons_cons (fun _ _ => rfl) ?_))
    rw [List.isChain_cons]
    refine ⟨?_, hchain⟩
    intro s hs hempty hshown
    rw [List.head?_map] at hs
    obtain ⟨seg, hseg, rfl⟩ := Option.map_eq_some_iff.1 hs
    rw [Slot.ofSegment_eq] at hshown
    exact absurd (v.shown_eq_empty_iff.1 hshown) (hword seg hseg)

end Guess

end Utterance
