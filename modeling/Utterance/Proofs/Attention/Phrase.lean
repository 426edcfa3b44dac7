import Utterance.Attention

/-!
# An attention phrase that is said

A text that is just an attention phrase starts with a phrase of the list, namely with itself, if nothing
is dropped from its front. So it calls for attention in all modes but one: where the phrase must stand
alone the first phrase of the list that the text starts with decides, and that may be a shorter one. From
a phrase that begins with a "hey" this is dropped before the phrases of the list are tried, so then it
takes another phrase of the list to hear it. The mode that also looks at the end of a text still finds the
whole phrase there, unless its last character is no letter, since that is dropped.
-/

namespace Utterance.Attention

variable {cs : List Char} {phrases : List String} {text : String}

/-- A text starts with none of the phrases. -/
def Unled (phrases : List String) (cs : List Char) : Prop :=
  ∀ q ∈ phrases, startsWith cs q.toList = false

/-- The first of the phrases that a text starts with leaves a letter of it. -/
def CutShort (phrases : List String) (cs : List Char) : Prop :=
  ∃ before q after, phrases = before ++ q :: after ∧ Unled before cs
    ∧ startsWith cs q.toList = true ∧ (cs.drop q.toList.length).any Text.isAlpha = true

/-- What goes wrong with a text that should call for attention: nothing if every text calls; else a "hey"
is dropped from it and it starts with none of the phrases then. If it may also call at its end, its last
character must be dropped as well, so that it ends with none of them. If the phrase must stand alone, it
may also go wrong that a shorter phrase comes first. -/
def Missed (phrases : List String) (text : String) : AttentionMode → Prop
  | .always => False
  | .anywhere =>
    dropHey text.toList ≠ text.toList ∧ Unled phrases (dropHey text.toList)
      ∧ text.toList.getLast?.any Text.isAlpha = false
      ∧ ∀ q ∈ phrases, endsWith text.toList.dropLast q.toList = false
  | .start => dropHey text.toList ≠ text.toList ∧ Unled phrases (dropHey text.toList)
  | .only =>
    (dropHey text.toList ≠ text.toList ∧ Unled phrases (dropHey text.toList))
      ∨ CutShort phrases (dropHey text.toList)

/-! ## A text starts and ends with itself -/

theorem same_self (cs : List Char) : same cs cs = true := by simp [same, Text.sameFolded]

theorem startsWith_self (cs : List Char) : startsWith cs cs = true := by
  simp [startsWith, same_self]

theorem endsWith_self (cs : List Char) : endsWith cs cs = true := by
  simp [endsWith, same_self]

/-- A text with nothing dropped from its front starts with one of the phrases if it is one. -/
theorem Unled.dropHey_ne (hmem : text ∈ phrases) (h : Unled phrases (dropHey text.toList)) :
    dropHey text.toList ≠ text.toList := by
  intro hsame
  have hself := h text hmem
  rw [hsame, startsWith_self] at hself
  cases hself

/-! ## What is dropped -/

/-- Where a "hey" is dropped there are several characters. -/
theorem one_lt_length_of_dropHey_ne (h : dropHey cs ≠ cs) : 1 < cs.length := by
  match cs with
  | [] | [_] | [_, _] => exact absurd rfl h
  | _ :: _ :: _ :: _ => simp

/-- A letter at the end is not dropped. -/
theorem dropStop_of_letter (h : cs.getLast?.any Text.isAlpha = true) : dropStop cs = cs := by
  simp [dropStop, h]

theorem dropStop_of_no_letter (hlength : 1 < cs.length)
    (h : cs.getLast?.any Text.isAlpha = false) : dropStop cs = cs.dropLast := by
  simp [dropStop, h, hlength]

/-! ## The phrase that decides -/

/-- The first phrase that a text starts with. -/
def leading? (phrases : List String) (cs : List Char) : Option String :=
  phrases.find? fun q => startsWith cs q.toList

/-- The first phrase that a text starts with, found among the phrases or among their characters. -/
theorem find?_map_toList (phrases : List String) (cs : List Char) :
    (phrases.map String.toList).find? (startsWith cs)
      = (leading? phrases cs).map String.toList := by
  rw [leading?, List.find?_map, Function.comp_def]

theorem leading?_eq_none_iff : leading? phrases cs = none ↔ Unled phrases cs := by
  simp [leading?, Unled]

/-- The phrase that cuts a text short is the first that the text starts with. -/
theorem cutShort_iff :
    CutShort phrases cs
      ↔ ∃ q, leading? phrases cs = some q ∧ (cs.drop q.toList.length).any Text.isAlpha = true := by
  simp only [leading?, List.find?_eq_some_iff_append]
  constructor
  · rintro ⟨before, q, after, hsplit, hbefore, hstarts, hleft⟩
    exact ⟨q, ⟨hstarts, before, after, hsplit, fun d hd => by rw [hbefore d hd]; rfl⟩, hleft⟩
  · rintro ⟨q, ⟨hstarts, before, after, hsplit, hbefore⟩, hleft⟩
    refine ⟨before, q, after, hsplit, fun d hd => ?_, hstarts, hleft⟩
    simpa using hbefore d hd

/-! ## When a phrase is not heard -/

/-- At the start nothing is heard just if the text, without a leading "hey", starts with none of the
phrases. -/
theorem inText_start_eq_false_iff (hne : text ≠ "") :
    inText text phrases .start = false ↔ Unled phrases (dropHey text.toList) := by
  have hsome : text.toList.isEmpty = false := by simpa using hne
  simp only [inText, find?_map_toList, hsome, Bool.not_false, Bool.true_and, Option.isSome_map]
  rw [← leading?_eq_none_iff, Option.isSome_eq_false_iff, Option.isNone_iff_eq_none]

/-- Nothing is heard anywhere just if it is not heard at the start, and the text, without its last
mark, ends with none of the phrases. -/
theorem inText_anywhere_eq_false_iff (hne : text ≠ "") :
    inText text phrases .anywhere = false
      ↔ Unled phrases (dropHey text.toList)
        ∧ ∀ q ∈ phrases, endsWith (dropStop text.toList) q.toList = false := by
  have hsome : text.toList.isEmpty = false := by simpa using hne
  simp only [inText, find?_map_toList, hsome, Bool.not_false, Bool.true_and, Option.isSome_map,
    Bool.or_eq_false_iff]
  rw [← leading?_eq_none_iff, Option.isSome_eq_false_iff, Option.isNone_iff_eq_none]
  simp

/-- A phrase does not stand alone just if none leads, or the first that does leaves letters behind
it. -/
theorem inText_only_eq_false_iff (hne : text ≠ "") :
    inText text phrases .only = false
      ↔ Unled phrases (dropHey text.toList) ∨ CutShort phrases (dropHey text.toList) := by
  have hsome : text.toList.isEmpty = false := by simpa using hne
  simp only [inText, find?_map_toList, hsome, Bool.not_false, Bool.true_and]
  rw [← leading?_eq_none_iff, cutShort_iff]
  cases leading? phrases (dropHey text.toList) <;> simp

/-- An attention phrase that is said by itself is heard in every mode, whatever phrases the list
has, but for exactly these cases. -/
theorem phrase_missed_iff (phrases : List String) (phrase : String) (hmem : phrase ∈ phrases)
    (hne : phrase ≠ "") (mode : AttentionMode) :
    inText phrase phrases mode = false ↔ Missed phrases phrase mode := by
  -- a phrase that is its own lead cannot be missed, so something was dropped from it
  have hdropped : Unled phrases (dropHey phrase.toList)
      ↔ dropHey phrase.toList ≠ phrase.toList ∧ Unled phrases (dropHey phrase.toList) :=
    ⟨fun h => ⟨h.dropHey_ne hmem, h⟩, And.right⟩
  cases mode with
  | always => simp [inText, Missed]
  | start =>
    rw [inText_start_eq_false_iff hne]
    exact hdropped
  | only =>
    rw [inText_only_eq_false_iff hne, hdropped]
    rfl
  | anywhere =>
    rw [inText_anywhere_eq_false_iff hne]
    constructor
    · rintro ⟨hunled, hnone⟩
      have hhey := hunled.dropHey_ne hmem
      cases hletter : phrase.toList.getLast?.any Text.isAlpha with
      -- behind a letter nothing is dropped, so the text ends with the phrase that it is
      | true =>
        have hself := hnone phrase hmem
        rw [dropStop_of_letter hletter, endsWith_self] at hself
        cases hself
      | false =>
        rw [dropStop_of_no_letter (one_lt_length_of_dropHey_ne hhey) hletter] at hnone
        exact ⟨hhey, hunled, hletter, hnone⟩
    · rintro ⟨hhey, hunled, hletter, hnone⟩
      rw [dropStop_of_no_letter (one_lt_length_of_dropHey_ne hhey) hletter]
      exact ⟨hunled, hnone⟩

/-- The phrase "hey robot" is not heard if there is no phrase for what is left without the "hey". -/
theorem phrase_missed_iff_hey_robot :
    "hey robot" ∈ ["big robot", "hey robot"] ∧ "hey robot" ≠ ""
      ∧ Missed ["big robot", "hey robot"] "hey robot" .start
      ∧ inText "hey robot" ["big robot", "hey robot"] .start = false := by
  have hmem : "hey robot" ∈ ["big robot", "hey robot"] := by decide
  have hne : "hey robot" ≠ "" := by decide
  have hmissed : Missed ["big robot", "hey robot"] "hey robot" .start := by
    refine ⟨by decide, fun q hq => ?_⟩
    simp only [List.mem_cons, List.not_mem_nil, or_false] at hq
    rcases hq with rfl | rfl <;> decide +kernel
  exact ⟨hmem, hne, hmissed, (phrase_missed_iff _ _ hmem hne .start).2 hmissed⟩

/-- So it is not true that a phrase of the list is always heard: a leading "hey" is dropped from the text
but not from the phrase, a shorter phrase that comes first leaves letters, and with a "hey" in front a
last character that is no letter is missing at the end. -/
theorem not_forall_phrase_heard :
    ¬(∀ phrases phrase mode, phrase ∈ phrases → phrase ≠ "" → inText phrase phrases mode = true)
      ∧ inText "hey robot" ["hey robot"] .start = false
      ∧ inText "robot arm" ["robot", "robot arm"] .only = false
      ∧ inText "hey robot!" ["hey robot!"] .anywhere = false := by
  have hhey : inText "hey robot" ["hey robot"] .start = false := by decide +kernel
  refine ⟨fun hall => ?_, hhey, by decide +kernel, by decide +kernel⟩
  have hheard := hall ["hey robot"] "hey robot" .start (by decide) (by decide)
  rw [hhey] at hheard
  cases hheard

end Utterance.Attention
