import Utterance.Proofs.Text.Casing
import Utterance.Proofs.Text.Number
import Utterance.Proofs.Vocabulary.Bins
import Utterance.Vocabulary.Guess

/-!
# Guessed words

A guess is made about a word of the text that is not known, and such a word is made of letters, digits,
hyphens, underscores and apostrophes. So it stands for itself in a rule: there is no blank, bracket or
sugar in it, and it is no wildcard in any case. A guess is never about an attention phrase.
-/

namespace Utterance

/-! ## Characters of words -/

namespace Segment

/-- No blank is part of a word. -/
theorem isBlank_of_isWordPart {c : Char} (h : isWordPart c = true) : Text.isBlank c = false := by
  have hblanks : ∀ n ∈ Text.blankNumbers, isWordPart (Char.ofNat n) = false := by decide +kernel
  rw [Bool.eq_false_iff]
  intro hblank
  have hpart := hblanks c.toNat (Text.mem_blankNumbers hblank)
  rw [Char.ofNat_toNat, h] at hpart
  cases hpart

/-- A character of a word differs from every character that is not part of one. It is used with a
fixed second character, such as the sharp sign. -/
theorem ne_of_isWordPart {c d : Char} (h : isWordPart c = true) (hd : isWordPart d = false) :
    c ≠ d := by
  rintro rfl
  rw [h] at hd
  cases hd

/-- The words of a text are made of characters of words. -/
theorem isWordPart_of_mem_ofChars {cs : List Char} {s : Segment} (h : s ∈ ofChars cs) :
    ∀ c ∈ s.word.toList, isWordPart c = true := by
  fun_induction ofChars cs with
  | case1 => cases h
  | case2 c cs gap word ih =>
    rcases List.mem_cons.1 h with rfl | h
    · intro d hd
      rw [String.toList_ofList] at hd
      exact List.all_eq_true.1 List.all_takeWhile d hd
    · exact ih h

end Segment

namespace Text

/-- A word without a sharp sign is no wildcard in any case: no other character has the sharp sign as
its small form. -/
theorem lower_ne_wildcard {word : String} (h : '#' ∉ word.toList) :
    lower word ≠ Step.wildcard := by
  intro heq
  have hlower := congrArg String.toList heq
  rw [lower, String.toList_ofList] at hlower
  have hsharp : Steady '#' := steady_of_mem (by decide)
  obtain ⟨a, rest, _, hword, -⟩ := hsharp.exists_of_lowerAfter_eq (u := []) (v := []) hlower
  rw [hword] at h
  exact h (List.mem_append_right _ (List.mem_cons_self ..))

end Text

/-! ## Categories -/

namespace Guess

/-- The categories that a word is guessed to have. -/
def categories : List String :=
  ["AKO", "AKO-S", "AKO-P", "NAME", "NAME-P", "HQ", "HQ-ER", "HQ-EST", "ACT", "ACT-S", "ACT-G",
    "ACT-D", "MOD"]

/-- Guessing a noun gives one of the listed categories, whatever its ending. -/
theorem noun_mem_categories (word : String) : noun word ∈ categories := by
  unfold noun
  split
  · decide
  · split <;> decide

/-- Guessing a name gives one of the listed categories, in the plural or not. -/
theorem name_mem_categories (plural : Bool) (word : String) : name plural word ∈ categories := by
  unfold name
  split
  · exact noun_mem_categories word
  · split <;> decide

/-- An ending of a verb stands for one of the listed categories. -/
theorem verbEnding?_mem_categories {word category : String} (h : verbEnding? word = some category) :
    category ∈ categories := by
  unfold verbEnding? at h
  split at h
  · cases h
    decide
  · split at h
    · cases h
      decide
    · cases h

/-- Guessing an adjective gives one of the listed categories, whatever its ending. -/
theorem adjective_mem_categories (word : String) : adjective word ∈ categories := by
  unfold adjective
  split
  · decide
  · split
    · rename_i h
      exact verbEnding?_mem_categories h
    · split
      · decide
      · split <;> decide

/-- Guessing a verb gives one of the listed categories: that of its ending, or the plain one. -/
theorem verb_mem_categories (word : String) : verb word ∈ categories := by
  unfold verb
  split
  · rename_i h
    exact verbEnding?_mem_categories h
  · split <;> decide

/-- What an ending alone tells is one of the listed categories. -/
theorem byEnding?_mem_categories {word category : String} (h : byEnding? word = some category) :
    category ∈ categories := by
  unfold byEnding? at h
  split at h
  · cases h
    decide
  · exact verbEnding?_mem_categories h

/-- A window only gives listed categories. The rules of a window are tried in their order, so the
proof goes down them one by one: each gives a listed category, or leaves the matter to the next. -/
theorem Window.category?_mem_categories {w : Window} {category : String}
    (h : w.category? = some category) : category ∈ categories := by
  have hcase : ∀ {b : Bool} {c : String} {others : Option String}, c ∈ categories →
      (others = some category → category ∈ categories) →
      (if b then some c else others) = some category → category ∈ categories := by
    intro b c others hc hothers heq
    cases b with
    | true => exact Option.some.inj heq ▸ hc
    | false => exact hothers heq
  have hmod : "MOD" ∈ categories := by decide
  revert h
  -- one step for each rule, in the order in which they are tried
  unfold category?
  apply hcase (name_mem_categories ..)
  apply hcase (noun_mem_categories _)
  apply hcase (noun_mem_categories _)
  apply hcase (adjective_mem_categories _)
  apply hcase (name_mem_categories ..)
  apply hcase (verb_mem_categories _)
  apply hcase (adjective_mem_categories _)
  apply hcase (name_mem_categories ..)
  apply hcase (name_mem_categories ..)
  apply hcase (adjective_mem_categories _)
  apply hcase (verb_mem_categories _)
  apply hcase hmod
  exact byEnding?_mem_categories

/-! ## Guesses about a text -/

/-- What is true of a guess about a word of a text: there is a word, it is made of characters of
words, it is not known, and its category is a listed one. -/
structure Apt (v : Vocabulary) (g : Guess) : Prop where
  ne_empty : g.word ≠ ""
  parts : ∀ c ∈ g.word.toList, Segment.isWordPart c = true
  unknown : v.known g.word = false
  category : g.category ∈ categories

/-- Vocabularies with the same bins leave the same words open to a guess. -/
theorem Apt.congr {v u : Vocabulary} {g : Guess} (h : g.Apt v) (hbins : u.bins = v.bins) : g.Apt u where
  ne_empty := h.ne_empty
  parts := h.parts
  unknown := by rw [Vocabulary.known_congr hbins, h.unknown]
  category := h.category

/-- No guess is about an attention phrase, so the rule for a guess raises no alert. -/
theorem Apt.category_ne_attention {v : Vocabulary} {g : Guess} (h : g.Apt v) :
    g.category ≠ Grammar.attention := by
  have hcategories : Grammar.attention ∉ categories := by decide
  exact fun heq => hcategories (heq ▸ h.category)

theorem Apt.sharp_not_mem {v : Vocabulary} {g : Guess} (h : g.Apt v) : '#' ∉ g.word.toList :=
  fun hmem => Segment.ne_of_isWordPart (h.parts _ hmem) (by decide) rfl

/-- The word of a guess is no wildcard, so the grammar takes it as a word like any other. -/
theorem Apt.ne_wildcard {v : Vocabulary} {g : Guess} (h : g.Apt v) : g.word ≠ Step.wildcard := by
  intro heq
  apply h.sharp_not_mem
  rw [heq]
  decide

/-- A guess is about the word in the middle of the window. That word is not known, and the category
is a listed one. -/
theorem Window.guess?_eq_some {w : Window} {g : Guess} (h : w.guess? = some g) :
    g.category ∈ categories ∧ w.here.role = .unknown ∧ w.here.word = g.word := by
  unfold guess? at h
  split at h
  · rename_i hrole
    obtain ⟨category, hcategory, rfl⟩ := Option.map_eq_some_iff.1 h
    exact ⟨category?_mem_categories hcategory, by simpa using hrole, rfl⟩
  · cases h

/-- The slots from the middle of a window on. -/
def Window.ahead (w : Window) (slots : List Slot) : List Slot :=
  w.here :: w.next :: w.afterNext :: w.last :: slots

/-- All that is ahead of an empty window are the slots that are still to come, and empty ones. -/
theorem Window.mem_ahead_empty {slots : List Slot} {s : Slot} (h : s ∈ empty.ahead slots) :
    s = {} ∨ s ∈ slots := by
  simp only [ahead, empty, List.mem_cons] at h
  rcases h with h | h | h | h | h
  · exact .inl h
  · exact .inl h
  · exact .inl h
  · exact .inl h
  · exact .inr h

/-- Moving a window on by one slot brings nothing new ahead of it but empty slots. -/
theorem Window.mem_ahead_settle_shift {w : Window} {slots : List Slot} {s : Slot}
    (h : s ∈ (w.settle.shift (slots.headD {})).ahead slots.tail) :
    s = {} ∨ s ∈ w.ahead slots := by
  have hsettle : w.settle.next = w.next ∧ w.settle.afterNext = w.afterNext
      ∧ w.settle.last = w.last := by
    unfold settle
    split <;> exact ⟨rfl, rfl, rfl⟩
  -- behind the last slot of the text empty ones are drawn in
  cases slots with
  | nil =>
    simp only [ahead, shift, hsettle, List.mem_cons, List.headD_nil, List.tail_nil] at h ⊢
    grind
  | cons head slots =>
    simp only [ahead, shift, hsettle, List.mem_cons, List.headD_cons, List.tail_cons] at h ⊢
    grind

/-- A guess that is made while a window slides was there before, or it is about a slot that was
ahead of the window at the start. -/
theorem Window.mem_slide {w : Window} {t : Tally} {slots : List Slot} {g : Guess}
    (h : g ∈ (w.slide t slots).guesses) :
    g ∈ t.guesses ∨ (g.category ∈ categories
      ∧ ∃ s ∈ w.ahead slots, s.role = .unknown ∧ s.word = g.word) := by
  have htake : ∀ {w : Window} {t : Tally} {slots : List Slot},
      g ∈ (t.take w.here w.guess?).guesses → g ∈ t.guesses ∨ (g.category ∈ categories
        ∧ ∃ s ∈ w.ahead slots, s.role = .unknown ∧ s.word = g.word) := by
    intro w t slots hg
    rcases List.mem_append.1 hg with hg | hg
    · exact .inl hg
    · obtain ⟨hcategory, hrole, hword⟩ := guess?_eq_some (Option.mem_toList.1 hg)
      exact .inr ⟨hcategory, w.here, List.mem_cons_self .., hrole, hword⟩
  -- along the slide: what is ahead after a move was ahead before it
  fun_induction slide w t slots with
  | case1 w t slots t' next hpast => exact htake h
  | case2 w t slots t' next hpast ih =>
    rcases ih h with hg | ⟨hcategory, s, hs, hrole, hword⟩
    · exact htake hg
    · rcases mem_ahead_settle_shift hs with rfl | hs
      · cases hrole
      · exact .inr ⟨hcategory, s, hs, hrole, hword⟩

/-- A word with a stored form has a role. -/
theorem ofKnown_ne_unknown (stored : String) : Role.ofKnown stored ≠ .unknown := by
  intro h
  unfold Role.ofKnown at h
  split at h
  · cases h
  · split at h
    · cases h
    · split at h
      · cases h
      · split at h <;> cases h

/-- A word has no role exactly if it is not known and does not begin with a number. A word that only
begins with a number is not known either, but it has the role of a number. -/
theorem role_eq_unknown_iff {v : Vocabulary} {word : String} (hne : word ≠ "") :
    v.role word = .unknown ↔ v.known word = false ∧ Text.startsNumber word = false := by
  have hsome : word.isEmpty = false := by simpa using hne
  rw [Vocabulary.role, Vocabulary.known, hsome]
  simp only [Bool.false_eq_true, if_false, Bool.not_false, Bool.true_and]
  cases hnumber : Text.startsNumber word with
  | true => simp
  | false =>
    have hisNumber : Text.isNumber word = false := by
      rw [Bool.eq_false_iff]
      intro his
      rw [Text.startsNumber_of_isNumber his] at hnumber
      cases hnumber
    -- the word is no number, so it is known just if it is in its bin
    rw [hisNumber, if_neg Bool.false_ne_true]
    cases hlookup : v.lookup word with
    | none => simp
    | some stored => simp [ofKnown_ne_unknown]

/-- Only a word that is not known has no role. -/
theorem known_of_role_eq_unknown {v : Vocabulary} {word : String} (h : v.role word = .unknown) :
    word ≠ "" ∧ v.known word = false := by
  have hne : word ≠ "" := by
    rintro rfl
    cases h
  exact ⟨hne, ((role_eq_unknown_iff hne).1 h).1⟩

/-- Every guess about a text is apt. The window starts out empty, so a guess is about a segment of
the text; what its word is made of comes from the segments, and that it is unknown from its role. -/
theorem apt_of_mem_guess {v : Vocabulary} {text : String} {g : Guess} (h : g ∈ (v.guess text).2) :
    g.Apt v := by
  rcases Window.mem_slide h with hg | ⟨hcategory, slot, hslot, hrole, hword⟩
  · cases hg
  -- the first window is empty, so the word comes from a segment of the text
  have hslot : slot ∈ (Segment.ofText text).map (Slot.ofSegment v) := by
    rcases Window.mem_ahead_empty hslot with rfl | hslot
    · cases hrole
    · exact hslot
  obtain ⟨s, hs, rfl⟩ := List.mem_map.1 hslot
  have hrole : v.role s.word = .unknown := hrole
  have hsame : s.word = g.word := by
    rw [← hword]
    simp [Slot.ofSegment, hrole]
  obtain ⟨hne, hunknown⟩ := known_of_role_eq_unknown hrole
  rw [hsame] at hne hunknown
  refine ⟨hne, ?_, hunknown, hcategory⟩
  rw [← hsame]
  exact Segment.isWordPart_of_mem_ofChars hs

end Guess

/-- Looking a word up reads the bins alone. -/
theorem Vocabulary.lookup_congr {v u : Vocabulary} (h : u.bins = v.bins) (word : String) :
    u.lookup word = v.lookup word := by
  have hbin : u.bin word.length = v.bin word.length := by
    rw [bin_length, bin_length, binIndex_congr (congrArg List.length h), binAt, binAt, h]
  rw [lookup, lookup, hbin]

/-- Vocabularies with the same bins lead to the same guesses. The marked text and the longest
unknown word of the vocabulary before it play no part. -/
theorem Vocabulary.guess_congr {v u : Vocabulary} (h : u.bins = v.bins) (text : String) :
    (u.guess text).2 = (v.guess text).2 := by
  have hslot : Guess.Slot.ofSegment u = Guess.Slot.ofSegment v := by
    funext s
    have hrole : u.role s.word = v.role s.word := by
      rw [role, role, lookup_congr h]
    rw [Guess.Slot.ofSegment, Guess.Slot.ofSegment, hrole, lookup_congr h]
  simp only [guess, hslot]

end Utterance
