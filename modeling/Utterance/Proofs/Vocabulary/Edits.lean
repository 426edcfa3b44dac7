import Mathlib.Control.Basic
import Mathlib.Data.Option.Basic
import Utterance.Proofs.Text.Number
import Utterance.Proofs.Vocabulary.Built

/-!
# Edits of words

An edit of an unknown word is small and has known words for its result. If the words of a vocabulary are
made of the characters that words of a text are made of, so is the result, and no letter is moved across
a blank.
-/

namespace Utterance

namespace Vocabulary

variable {v : Vocabulary} {word new p q first second : String}

/-! ## Words without blanks -/

/-- A vocabulary whose words have no other characters than words of a text. -/
def Spelled (v : Vocabulary) : Prop :=
  ∀ word ∈ v.words, ∀ c ∈ word.toList, Segment.isWordPart c = true

theorem spelled_iff : v.Spelled ↔ v.words.all (·.toList.all Segment.isWordPart) = true := by
  simp [Spelled]

/-- No word with a blank in it is known then: it is no number, and what is stored consists of
characters of words. -/
theorem Spelled.known_eq_false (h : v.Spelled) (hblank : ' ' ∈ word.toList) :
    v.known word = false := by
  rw [Bool.eq_false_iff]
  intro hknown
  rcases (known_iff.1 hknown).2 with hnumber | hstored
  · exact Text.blank_not_mem_of_isNumber hnumber hblank
  · obtain ⟨before, after, hword⟩ := List.append_of_mem hblank
    have hsteady : Text.Steady ' ' := Text.steady_of_isBlank (by decide)
    -- words are stored in lower case, which leaves a blank where it is
    obtain ⟨u, _, hlower, _⟩ := hsteady.exists_lowerAfter_append before [] after
    have hpart := h _ (mem_words_iff.2 ⟨_, hstored⟩) ' ' (by
      rw [Text.lower, String.toList_ofList, hword, hlower]
      exact List.mem_append_right _ (List.mem_cons_self ..))
    exact absurd hpart (by decide)

/-- A known word with no other characters than words of a text. -/
structure Sound (v : Vocabulary) (word : String) : Prop where
  known : v.known word = true
  parts : ∀ c ∈ word.toList, Segment.isWordPart c = true

theorem Sound.ne_empty (h : v.Sound word) : word ≠ "" := (known_iff.1 h.known).1

/-! ## Small edits -/

/-- Whether `new` is `old` with two neighbouring letters swapped. -/
def Swapped (old new : String) : Prop :=
  ∃ front a b back, old.toList = front ++ a :: b :: back ∧ new.toList = front ++ b :: a :: back

/-- Whether `new` without one of its letters is `old`. -/
def Lengthened (old new : String) : Prop :=
  ∃ front c back, new.toList = front ++ c :: back ∧ old.toList = front ++ back

/-- Whether `new` is as long as `old` and differs from it in at most one position. -/
def Altered (old new : String) : Prop :=
  new.length = old.length ∧ ∃ i : Nat, ∀ j, j ≠ i → new.toList[j]? = old.toList[j]?

/-- An edit that makes words known: the words before it, and what becomes of each. -/
inductive Edit (v : Vocabulary) : List String → List String → Prop where
  /-- Letters move across the boundary of two words. -/
  | move {p q first second : String} (letters : first ++ second = p ++ q)
      (known : v.known first = true) (known' : v.known second = true) : Edit v [p, q] [first, second]
  /-- A word is split in two, which both stand in its place. -/
  | split {word first second : String} (letters : first ++ second = word)
      (known : v.known first = true) (known' : v.known second = true) :
      Edit v [word] [pairText first second]
  | swap {word new : String} (letters : Swapped word new) (known : v.known new = true) :
      Edit v [word] [new]
  /-- A letter is put in. Stored words are in lower case. -/
  | lengthen {word new : String} (letters : Lengthened (Text.lower word) new)
      (known : v.known new = true) : Edit v [word] [new]
  /-- A letter is changed, if the vocabulary allows it. -/
  | alter {word new : String} (allowed : v.substitute = true) (letters : Altered (Text.lower word) new)
      (known : v.known new = true) : Edit v [word] [new]

/-! ## Edits within a word -/

/-- A word with a stored form is known. -/
theorem known_of_lookup (h : (v.lookup word).isSome) : v.known word = true := by
  have hne : word ≠ "" := by
    rintro rfl
    cases h
  rw [known, h, Bool.or_true, Bool.and_true]
  simpa using hne

/-- Splitting a word gives two known words. -/
theorem split_eq_some (h : v.split word = some new) :
    ∃ first second, new = pairText first second ∧ first ++ second = word
      ∧ v.known first = true ∧ v.known second = true := by
  obtain ⟨_, i, _, _, hcut, _⟩ := List.findSome?_eq_some_iff.1 h
  simp only at hcut
  split at hcut
  · rename_i hboth
    rw [Bool.and_eq_true] at hboth
    refine ⟨_, _, (Option.some.inj hcut).symm, ?_, hboth.1, known_of_lookup hboth.2⟩
    rw [← String.toList_inj, String.toList_append, String.toList_ofList, String.toList_ofList,
      List.take_append_drop]
  · cases hcut

/-- The letters on both sides of an inner position. -/
theorem exists_of_mem_cuts {i : Nat} (h : i ∈ cuts word) :
    ∃ a b, word.toList = word.toList.take (i - 1) ++ a :: b :: word.toList.drop (i + 1)
      ∧ swapAt i word.toList = word.toList.take (i - 1) ++ b :: a :: word.toList.drop (i + 1) := by
  rw [cuts, List.mem_reverse, List.mem_map] at h
  obtain ⟨j, hj, rfl⟩ := h
  rw [List.mem_range, ← String.length_toList] at hj
  -- there are two letters at least behind an inner position's left neighbour
  have hpair : word.toList.drop j
      = word.toList[j] :: word.toList[j + 1] :: word.toList.drop (j + 1 + 1) := by
    rw [List.drop_eq_getElem_cons (by omega), List.drop_eq_getElem_cons (by omega)]
  refine ⟨word.toList[j], word.toList[j + 1], ?_, ?_⟩
  · rw [Nat.add_sub_cancel, ← hpair, List.take_append_drop]
  · rw [swapAt, Nat.add_sub_cancel, hpair, List.append_assoc]
    rfl

/-- Swapping letters gives a known word. -/
theorem swap_eq_some (h : v.swap word = some new) : Swapped word new ∧ v.known new = true := by
  obtain ⟨before, i, after, hcuts, hcut, _⟩ := List.findSome?_eq_some_iff.1 h
  simp only at hcut
  split at hcut
  · rename_i hknown
    cases hcut
    have hi : i ∈ cuts word := hcuts ▸ List.mem_append_right _ (List.mem_cons_self ..)
    obtain ⟨a, b, hold, hnew⟩ := exists_of_mem_cuts hi
    exact ⟨⟨_, a, b, _, hold, by rw [String.toList_ofList, hnew]⟩, hknown⟩
  · cases hcut

/-- Nothing is put in where there is no room. -/
theorem eq_of_fits {cs longer : List Char} (h : fits false cs longer = true)
    (hlength : longer.length = cs.length) : longer = cs := by
  induction longer generalizing cs with
  | nil => exact (List.length_eq_zero_iff.1 hlength.symm).symm
  | cons d longer ih =>
    cases cs with
    | nil => cases hlength
    | cons c cs =>
      rw [fits] at h
      split at h
      · rename_i hsame
        rw [hsame, ih h (Nat.succ.inj hlength)]
      · cases h

/-- A list that is one longer fits if it has one letter more. The first place where the two differ
is where that letter stands, for behind it nothing may be put in again. -/
theorem exists_of_fits {cs longer : List Char} (h : fits true cs longer = true)
    (hlength : longer.length = cs.length + 1) :
    ∃ front c back, longer = front ++ c :: back ∧ cs = front ++ back := by
  induction longer generalizing cs with
  | nil => cases hlength
  | cons d longer ih =>
    cases cs with
    | nil => exact ⟨[], d, [], by rw [List.length_eq_zero_iff.1 (Nat.succ.inj hlength), List.nil_append], rfl⟩
    | cons c cs =>
      rw [fits] at h
      split at h
      · rename_i hsame
        obtain ⟨front, e, back, rfl, rfl⟩ := ih h (Nat.succ.inj hlength)
        exact ⟨c :: front, e, back, by rw [hsame, List.cons_append], rfl⟩
      · exact ⟨[], d, c :: cs, by rw [eq_of_fits h (Nat.succ.inj hlength), List.nil_append], rfl⟩

/-- Lists of one length that differ nowhere are the same. -/
theorem eq_of_countP_eq_zero {xs ys : List Char} (hlength : ys.length = xs.length)
    (h : (xs.zip ys).countP (fun (a, b) => a != b) = 0) : ys = xs := by
  induction xs generalizing ys with
  | nil => exact List.length_eq_zero_iff.1 hlength
  | cons x xs ih =>
    cases ys with
    | nil => cases hlength
    | cons y ys =>
      rw [List.zip_cons_cons, List.countP_cons, Nat.add_eq_zero_iff] at h
      obtain ⟨hrest, hfirst⟩ := h
      rw [ih (Nat.succ.inj hlength) hrest]
      simpa using (Eq.symm · : x = y → y = x) (by simpa using hfirst)

/-- Lists of one length that differ in at most one position. If the first characters differ the rest
is the same, and otherwise the rest differs in at most one position. -/
theorem exists_of_countP_le_one {xs ys : List Char} (hlength : ys.length = xs.length)
    (h : (xs.zip ys).countP (fun (a, b) => a != b) ≤ 1) :
    ∃ i : Nat, ∀ j, j ≠ i → ys[j]? = xs[j]? := by
  induction xs generalizing ys with
  | nil =>
    rw [List.length_eq_zero_iff.1 hlength]
    exact ⟨0, fun _ _ => rfl⟩
  | cons x xs ih =>
    cases ys with
    | nil => cases hlength
    | cons y ys =>
      rw [List.zip_cons_cons, List.countP_cons] at h
      by_cases hsame : x = y
      · subst hsame
        obtain ⟨i, hi⟩ := ih (Nat.succ.inj hlength) (by simpa using h)
        refine ⟨i + 1, fun j hj => ?_⟩
        cases j with
        | zero => rfl
        | succ j => exact hi j fun hij => hj (congrArg (· + 1) hij)
      -- the others are the same then
      · have hrest : (xs.zip ys).countP (fun (a, b) => a != b) = 0 := by
          rw [if_pos (bne_iff_ne.2 hsame)] at h
          exact Nat.le_zero.1 (Nat.le_of_succ_le_succ h)
        rw [eq_of_countP_eq_zero (Nat.succ.inj hlength) hrest]
        refine ⟨0, fun j hj => ?_⟩
        cases j with
        | zero => exact absurd rfl hj
        | succ j => rfl

/-- Putting in a letter gives a stored word. -/
theorem lengthen_eq_some (h : v.lengthen word = some new) :
    Lengthened (Text.lower word) new ∧ new ∈ v.bin new.length ∧ new ≠ "" := by
  have hfits := List.find?_some h
  have hmem := List.mem_of_find?_eq_some h
  rw [Bool.and_eq_true, beq_iff_eq] at hfits
  obtain ⟨hlength, hfits⟩ := hfits
  refine ⟨exists_of_fits hfits hlength, hlength ▸ hmem, ?_⟩
  rintro rfl
  cases hlength

/-- Changing a letter gives a stored word. -/
theorem alter_eq_some (hne : word ≠ "") (h : v.alter word = some new) :
    Altered (Text.lower word) new ∧ new ∈ v.bin new.length ∧ new ≠ "" := by
  have hfits := List.find?_some h
  have hmem := List.mem_of_find?_eq_some h
  rw [Bool.and_eq_true, beq_iff_eq, decide_eq_true_eq] at hfits
  obtain ⟨hlength, hfits⟩ := hfits
  refine ⟨⟨hlength, exists_of_countP_le_one hlength hfits⟩, hlength ▸ hmem, ?_⟩
  rintro rfl
  exact hne (Text.lower_eq_empty_iff.1 (String.length_eq_zero_iff.1 hlength.symm))

/-- What a word is mended to comes from a split, a swap, one more letter or, if that is allowed, a
changed one. -/
theorem mend_cases (h : v.mend word = some new) :
    v.split word = some new ∨ v.swap word = some new ∨ v.lengthen word = some new
      ∨ v.substitute = true ∧ v.alter word = some new := by
  simp only [mend, Option.orElse_eq_orElse, Option.orElse_eq_or, Option.or_eq_some_iff] at h
  rcases h with h | ⟨_, h | ⟨_, h | ⟨_, h⟩⟩⟩
  · exact .inl h
  · exact .inr (.inl h)
  · exact .inr (.inr (.inl h))
  · split at h
    · rename_i hallowed
      exact .inr (.inr (.inr ⟨hallowed, h⟩))
    · cases h

/-- A word is mended by an edit. -/
theorem edit_of_mend (hbuilt : v.Built) (hne : word ≠ "") (h : v.mend word = some new) :
    v.Edit [word] [new] := by
  -- the ways of mending are tried in this order, the first that works is taken, and each is an
  -- edit
  rcases mend_cases h with hsplit | hswap | hlengthen | ⟨hallowed, halter⟩
  · obtain ⟨first, second, rfl, letters, known, known'⟩ := split_eq_some hsplit
    exact .split letters known known'
  · obtain ⟨letters, known⟩ := swap_eq_some hswap
    exact .swap letters known
  · obtain ⟨letters, hmem, hnew⟩ := lengthen_eq_some hlengthen
    exact .lengthen letters (hbuilt.known_of_mem_bin hmem hnew)
  · obtain ⟨letters, hmem, hnew⟩ := alter_eq_some hne halter
    exact .alter hallowed letters (hbuilt.known_of_mem_bin hmem hnew)

/-- What a word is mended to: a sound word or two. A word that is split or swapped has the letters
of the old one, and any other comes from a bin. -/
theorem mend_eq_some (hbuilt : v.Built) (hspelled : v.Spelled) (hne : word ≠ "")
    (hparts : ∀ c ∈ word.toList, Segment.isWordPart c = true) (h : v.mend word = some new) :
    v.Sound new ∨ ∃ a b, new = pairText a b ∧ v.Sound a ∧ v.Sound b := by
  have hstored : new ∈ v.bin new.length → new ≠ "" → v.Sound new := fun hmem hnew =>
    ⟨hbuilt.known_of_mem_bin hmem hnew, hspelled new (mem_words_iff.2 ⟨_, hmem⟩)⟩
  rcases mend_cases h with hsplit | hswap | hlengthen | ⟨_, halter⟩
  · obtain ⟨a, b, hnew, rfl, known, known'⟩ := split_eq_some hsplit
    rw [String.toList_append, List.forall_mem_append] at hparts
    exact .inr ⟨a, b, hnew, ⟨known, hparts.1⟩, ⟨known', hparts.2⟩⟩
  -- swapping letters brings no new ones
  · obtain ⟨⟨front, a, b, back, hold, hnew⟩, known⟩ := swap_eq_some hswap
    have hperm : (front ++ b :: a :: back).Perm (front ++ a :: b :: back) :=
      (List.Perm.swap a b back).append_left front
    refine .inl ⟨known, fun c hc => hparts c ?_⟩
    rw [hold, ← hperm.mem_iff, ← hnew]
    exact hc
  · obtain ⟨_, hmem, hnew⟩ := lengthen_eq_some hlengthen
    exact .inl (hstored hmem hnew)
  · obtain ⟨_, hmem, hnew⟩ := alter_eq_some hne halter
    exact .inl (hstored hmem hnew)

/-! ## Edits across a boundary -/

/-- Cutting the letters of two words into two known words is an edit. -/
theorem edit_of_bothKnown {front back : String} (letters : front ++ back = p ++ q)
    (h : v.bothKnown front back = some (first, second)) : v.Edit [p, q] [first, second] := by
  unfold bothKnown at h
  split at h
  · rename_i hboth
    rw [Bool.and_eq_true] at hboth
    cases h
    exact .move letters hboth.1 hboth.2
  · cases h

/-- A word is its beginning with its last letter. -/
theorem splitLast_append (word : String) : (splitLast word).1 ++ (splitLast word).2 = word := by
  rw [← String.toList_inj, String.toList_append, splitLast, String.toList_ofList, String.toList_ofList,
    List.dropLast_eq_take]
  exact List.take_append_drop _ _

theorem splitFirst_append (word : String) : (splitFirst word).1 ++ (splitFirst word).2 = word := by
  rw [← String.toList_inj, String.toList_append, splitFirst, String.toList_ofList, String.toList_ofList]
  exact List.take_append_drop _ _

/-- A letter that moves between two words is an edit. -/
theorem edit_of_move
    (h : v.moveRight p q = some (first, second) ∨ v.moveLeft p q = some (first, second)) :
    v.Edit [p, q] [first, second] := by
  rcases h with h | h
  · unfold moveRight at h
    split at h
    · cases h
    · change v.bothKnown (splitLast p).1 ((splitLast p).2 ++ q) = _ at h
      refine edit_of_bothKnown ?_ h
      rw [← String.append_assoc, splitLast_append]
  · unfold moveLeft at h
    split at h
    · cases h
    · change v.bothKnown (p ++ (splitFirst q).1) (splitFirst q).2 = _ at h
      refine edit_of_bothKnown ?_ h
      rw [String.append_assoc, splitFirst_append]

/-- A letter that moves between two words makes sound ones of them: both are known, and together
they have the letters that the two words had before. -/
theorem move_eq_some (hp : ∀ c ∈ p.toList, Segment.isWordPart c = true)
    (hq : ∀ c ∈ q.toList, Segment.isWordPart c = true)
    (h : v.moveRight p q = some (first, second) ∨ v.moveLeft p q = some (first, second)) :
    v.Sound first ∧ v.Sound second := by
  cases edit_of_move h with
  | move letters known known' =>
    have hparts : ∀ c ∈ (p ++ q).toList, Segment.isWordPart c = true := by
      rw [String.toList_append, List.forall_mem_append]
      exact ⟨hp, hq⟩
    rw [← letters, String.toList_append, List.forall_mem_append] at hparts
    exact ⟨⟨known, hparts.1⟩, ⟨known', hparts.2⟩⟩

/-- No letter moves across the end of a word that was split. Words have no blanks, and the word
before would have the blank of the split in it. -/
theorem move_pairText (hspelled : v.Spelled) {a b : String} (hb : b ≠ "") (q : String) :
    v.moveRight (pairText a b) q = none ∧ v.moveLeft (pairText a b) q = none := by
  have hpair : (pairText a b).toList = a.toList ++ ' ' :: b.toList := by
    simp [pairText, String.toList_append]
  -- a blank stands in what is left of the pair, and in no word that is known
  have hblank : ' ' ∈ (splitLast (pairText a b)).1.toList := by
    have hne : b.toList ≠ [] := fun hnil => hb (String.toList_eq_nil_iff.1 hnil)
    rw [splitLast, String.toList_ofList, hpair, List.dropLast_append_of_ne_nil (List.cons_ne_nil _ _),
      List.dropLast_cons_of_ne_nil hne]
    exact List.mem_append_right _ (List.mem_cons_self ..)
  constructor
  · unfold moveRight
    split
    · rfl
    · simp only [bothKnown, hspelled.known_eq_false hblank, Bool.false_and, Bool.false_eq_true,
        if_false]
  · unfold moveLeft
    split
    · rfl
    · have hfirst : v.known (pairText a b ++ (splitFirst q).1) = false := by
        apply hspelled.known_eq_false
        rw [String.toList_append, hpair]
        exact List.mem_append_left _ (List.mem_append_right _ (List.mem_cons_self ..))
      simp only [bothKnown, hfirst, Bool.false_and, Bool.false_eq_true, if_false]

/-- No letter can move across the boundary between a word and the word after it. -/
def Stuck (v : Vocabulary) (p q : Segment) : Prop :=
  q.gap = " " → p.word ≠ "" → q.word ≠ "" →
    v.moveRight p.word q.word = none ∧ v.moveLeft p.word q.word = none

instance (p q : Segment) : Decidable (v.Stuck p q) :=
  inferInstanceAs (Decidable (q.gap = " " → p.word ≠ "" → q.word ≠ "" →
    v.moveRight p.word q.word = none ∧ v.moveLeft p.word q.word = none))

/-- A word that is not known does not go together with the word before it exactly if no letter can
move between them. -/
theorem repairBefore_eq_none_iff {r : Repaired} {s : Segment} (hs : s.word ≠ "") :
    v.repairBefore r s = none ↔ ∀ p ∈ r.done.head?, v.Stuck p s := by
  unfold repairBefore before?
  cases r.done with
  | nil => simp
  | cons p rest =>
    simp only [List.head?_cons, Option.mem_some_iff, forall_eq']
    -- letters can only move between two words with a single space between them
    by_cases hnext : p.word ≠ "" ∧ s.gap = " "
    · have hcondition : (!p.word.isEmpty && s.gap == " ") = true := by simpa using hnext
      rw [if_pos hcondition, Option.bind_eq_bind, Option.bind_some]
      cases hright : v.moveRight p.word s.word with
      | some pair => simp [Stuck, hnext, hs, hright]
      | none =>
        cases hleft : v.moveLeft p.word s.word with
        | some pair => simp [Stuck, hnext, hs, hleft]
        | none => simp [Stuck, hright, hleft]
    · have hcondition : ¬(!p.word.isEmpty && s.gap == " ") = true := by simpa using hnext
      rw [if_neg hcondition]
      exact iff_of_true rfl fun hgap hp => absurd ⟨hp, hgap⟩ hnext

/-- An unknown word does not go together with the word after it exactly if no letter can move
between them. -/
theorem repairAfter_eq_none_iff {r : Repaired} {s n : Segment} (hs : s.word ≠ "") :
    v.repairAfter r s n = none ↔ v.Stuck s n := by
  unfold repairAfter
  by_cases hnext : n.gap = " " ∧ n.word ≠ ""
  · have hcondition : (n.gap == " " && !n.word.isEmpty) = true := by simpa using hnext
    simp only [hcondition, guard_true]
    cases hleft : v.moveLeft s.word n.word with
    | some pair => simp [Stuck, hnext, hs, hleft]
    | none =>
      cases hright : v.moveRight s.word n.word with
      | some pair => simp [Stuck, hnext, hs, hright]
      | none => simp [Stuck, hright, hleft]
  · have hcondition : (n.gap == " " && !n.word.isEmpty) = false := by simpa using hnext
    simp only [hcondition, Bool.false_eq_true, guard_false]
    exact iff_of_true rfl fun hgap _ hn => absurd ⟨hgap, hn⟩ hnext

/-- What a repair with the word before does: the two words are others, both are done, and that is
one more change. -/
theorem repairBefore_eq_some {r r' : Repaired} {s : Segment} (h : v.repairBefore r s = some r') :
    ∃ p rest first second, r.done = p :: rest ∧ p.word ≠ "" ∧ s.gap = " "
      ∧ (v.moveRight p.word s.word = some (first, second)
        ∨ v.moveLeft p.word s.word = some (first, second))
      ∧ r'.done = ⟨s.gap, second⟩ :: ⟨p.gap, first⟩ :: rest
      ∧ r'.changes = r.changes ++ [(pairText p.word s.word, pairText first second)] := by
  simp only [repairBefore, before?, Option.bind_eq_bind, Option.bind_eq_some_iff] at h
  obtain ⟨⟨p, rest⟩, hbefore, ⟨first, second⟩, hmove, hresult⟩ := h
  split at hbefore
  · rename_i p' rest' hdone
    split at hbefore
    · rename_i hnext
      cases hbefore
      cases hresult
      simp only [Bool.and_eq_true, Bool.not_eq_true', String.isEmpty_eq_false_iff, beq_iff_eq] at hnext
      refine ⟨p, rest, first, second, hdone, hnext.1, hnext.2, ?_, rfl, rfl⟩
      cases hright : v.moveRight p.word s.word with
      | some pair =>
        rw [hright] at hmove
        exact .inl hmove
      | none =>
        rw [hright] at hmove
        exact .inr hmove
    · cases hbefore
  · cases hbefore

/-- What a repair with the word after does: the two words are others, both are done, and that is one
more change. -/
theorem repairAfter_eq_some {r r' : Repaired} {s n : Segment} (h : v.repairAfter r s n = some r') :
    n.gap = " " ∧ n.word ≠ "" ∧ ∃ first second,
      (v.moveRight s.word n.word = some (first, second)
        ∨ v.moveLeft s.word n.word = some (first, second))
      ∧ r'.done = ⟨n.gap, second⟩ :: ⟨s.gap, first⟩ :: r.done
      ∧ r'.changes = r.changes ++ [(pairText s.word n.word, pairText first second)] := by
  simp only [repairAfter, Option.bind_eq_bind, Option.bind_eq_some_iff, Option.guard_eq_some',
    Bool.and_eq_true, beq_iff_eq, Bool.not_eq_true', String.isEmpty_eq_false_iff] at h
  obtain ⟨_, hnext, ⟨first, second⟩, hmove, hresult⟩ := h
  cases hresult
  refine ⟨hnext.1, hnext.2, first, second, ?_, by rw [hnext.1]; rfl, rfl⟩
  cases hleft : v.moveLeft s.word n.word with
  | some pair =>
    rw [hleft] at hmove
    exact .inr hmove
  | none =>
    rw [hleft] at hmove
    exact .inl hmove

end Vocabulary

end Utterance
