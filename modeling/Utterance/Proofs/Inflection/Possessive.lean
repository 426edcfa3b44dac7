import Utterance.Inflection
import Utterance.Proofs.Inflection.Ending

/-!
# Possessives that come back

A possessive is a word with an apostrophe and an s behind it, or a plural with only an apostrophe behind
its own s. The last two characters tell which of the two it is, whatever the word ends in, so that the
word or the plural can be taken out again. What a plural leads to is then a matter of plurals. All this
holds of phrases as well, and it only needs that no irregular possessive looks the same.
-/

namespace Utterance

namespace Irregulars

/-! ## Endings -/

/-- A plural in the possessive. -/
def pluralPossessive (plural : String) : String :=
  if Suffix.endsWith plural "s" then plural ++ "'" else plural ++ "'s"

/-- The ending of a possessive is taken off again. -/
theorem withoutPossessive_append (word : String) : withoutPossessive (word ++ "'s") = some word := by
  have hletters : (word ++ "'s").toList = word.toList ++ ['\'', 's'] := by simp
  have hends : Suffix.endsWith (word ++ "'s") "'s" = true := by
    simp [Suffix.endsWith, List.isPrefixOf]
  have hcut : Text.upTo (-2) (word.toList ++ ['\'', 's']) = word.toList :=
    @Suffix.upTo_append _ ['\'', 's'] (by decide)
  rw [withoutPossessive, if_pos hends, hletters, hcut, String.ofList_toList]

/-- An apostrophe behind an s is not one before an s. -/
theorem withoutPossessive_pluralPossessive (plural : String) :
    withoutPossessive (pluralPossessive plural) = some plural := by
  unfold pluralPossessive
  cases hs : Suffix.endsWith plural "s" with
  | false => exact withoutPossessive_append plural
  | true =>
    have hletters : (plural ++ "'").toList = plural.toList ++ ['\''] := by simp
    -- the apostrophe is the last letter, so the text does not end in an s
    have hother : Suffix.endsWith (plural ++ "'") "'s" = false := by
      simp [Suffix.endsWith, List.isPrefixOf]
    have hends : Suffix.endsWith (plural ++ "'") "s'" = true := by
      simpa [Suffix.endsWith, List.isPrefixOf] using hs
    have hcut : Text.upTo (-1) (plural.toList ++ ['\'']) = plural.toList :=
      @Suffix.upTo_append _ ['\''] (by decide)
    rw [if_pos rfl, withoutPossessive, if_neg (by simp [hother]), if_pos hends, hletters, hcut,
      String.ofList_toList]

/-! ## Looking up -/

variable {m : Irregulars} {tags : Tags} {word form plural : String} {t : Tag}

/-- A word that is no base under a tag has no form in the table. -/
theorem surface?_eq_none (h : ∀ f ∈ m.forms, f.tag = t → f.base ≠ word) : m.surface? word t = none := by
  rw [surface?, Option.map_eq_none_iff, List.find?_eq_none]
  intro f hf
  simpa using h f hf

/-- Nor has a form that is no surface a base there. -/
theorem base?_eq_none (h : ∀ f ∈ m.forms, f.tag = t → f.surface ≠ form) : m.base? form t = none := by
  rw [base?, Option.map_eq_none_iff, List.find?_eq_none]
  intro f hf
  simpa using h f hf

/-! ## Forms and bases that there are -/

/-- A phrase has a form if every word has one. Where the table has none for the whole phrase, the
first word is inflected and the others are kept. -/
theorem isSome_phraseForm (h : ∀ word, (regularForm word tags).isSome) (base : String) :
    (m.phraseForm base tags).isSome := by
  have hword : ∀ word, (m.wordForm word tags).isSome := by
    intro word
    unfold wordForm
    split
    · rfl
    · exact h word
  unfold phraseForm
  split
  · rfl
  · split
    · rw [Option.isSome_map]
      exact hword _
    · exact h base

/-- Every phrase has a possessive. -/
theorem isSome_possessiveForm (base : String) : (m.possessiveForm base tags).isSome := by
  have hplural : (m.phraseForm base (.single .plural)).isSome := isSome_phraseForm (fun _ => rfl) base
  unfold possessiveForm
  simp only
  split
  · rfl
  · rfl
  · rw [Option.isSome_map]
    exact hplural

/-- A phrase has a base if every word has one, by the same cases. -/
theorem isSome_phraseBase (h : ∀ word, (regularBase word tags).isSome) (form : String) :
    (m.phraseBase form tags).isSome := by
  have hword : ∀ word, (m.wordBase word tags).isSome := by
    intro word
    unfold wordBase
    split
    · rfl
    · exact h word
  unfold phraseBase
  split
  · rfl
  · split
    · rw [Option.isSome_map]
      exact hword _
    · exact h form

/-! ## Possessives -/

/-- With a class among the tags, asking for a form is not refused. -/
theorem surface_of_hasClass (h : tags.hasClass = true) (word : String) :
    m.surface word tags = .ok (m.form word tags) := by
  simp only [surface, Tags.requireClass, h]
  rfl

/-- Nor is asking for a base. -/
theorem base_of_hasClass (h : tags.hasClass = true) (form : String) :
    m.base form tags = .ok (m.baseForm form tags) := by
  simp only [base, Tags.requireClass, h]
  rfl

/-- A word without an irregular possessive gets an apostrophe and an s. -/
theorem possessiveForm_of_singular (hword : m.surface? word .possessive = none)
    (hsingular : tags.has .plural = false) : m.possessiveForm word tags = some (word ++ "'s") := by
  simp only [possessiveForm, hword, hsingular]

/-- The possessive of a plural is made of the plural, be it irregular or not. -/
theorem possessiveForm_of_plural (hplural : tags.has .plural = true)
    (hform : m.phraseForm word (.single .plural) = some plural) :
    m.possessiveForm word tags = some (pluralPossessive plural) := by
  unfold possessiveForm
  rw [hplural]
  cases m.surface? word .possessive <;> simp only [hform, Option.map_some, pluralPossessive]

/-- The base of a possessive that is not irregular is that of what the ending was added to. -/
theorem possessiveBase_of_withoutPossessive {stem : String} (hform : m.base? form .possessive = none)
    (hstem : withoutPossessive form = some stem) :
    m.possessiveBase form tags
      = if tags.has .plural then m.phraseBase stem (.single .plural) else some stem := by
  rw [possessiveBase, hform]
  simp only [hstem, Option.bind_some]

/-- A word or phrase is what its possessive leads back to, if neither of the two is an entry of the table
of irregular possessives. The possessive of its plural leads to what the plural leads to, if that possessive
is no entry of the table. -/
theorem base_surface_possessive (m : Irregulars) (word : String) :
    ((∀ f ∈ m.forms, f.tag = .possessive → f.base ≠ word ∧ f.surface ≠ word ++ "'s") →
        ∃ form, m.surface word (.single .possessive) = .ok (some form)
          ∧ m.base form (.single .possessive) = .ok (some word))
      ∧ ∃ plural form, m.surface word (.single .plural) = .ok (some plural)
        ∧ m.surface word (.ofList [.plural, .possessive]) = .ok (some form)
        ∧ ((∀ f ∈ m.forms, f.tag = .possessive → f.surface ≠ form) →
          ∃ back, m.base plural (.single .plural) = .ok (some back)
            ∧ m.base form (.ofList [.plural, .possessive]) = .ok (some back)) := by
  constructor
  -- without an entry the ending is put on and cut off
  · intro hnone
    have hword : m.surface? word .possessive = none := surface?_eq_none fun f hf ht => (hnone f hf ht).1
    have hform : m.base? (word ++ "'s") .possessive = none := base?_eq_none fun f hf ht => (hnone f hf ht).2
    refine ⟨word ++ "'s", ?_, ?_⟩
    · rw [surface_of_hasClass (by decide)]
      exact congrArg Except.ok (possessiveForm_of_singular hword (by decide))
    · rw [base_of_hasClass (by decide)]
      exact congrArg Except.ok
        (possessiveBase_of_withoutPossessive hform (withoutPossessive_append word))
  · -- there is a plural of every word, and a base of every plural
    obtain ⟨plural, hplural⟩ := Option.isSome_iff_exists.1
      (@isSome_phraseForm m (.single .plural) (fun _ => rfl) word)
    obtain ⟨back, hback⟩ := Option.isSome_iff_exists.1
      (@isSome_phraseBase m (.single .plural) (fun _ => rfl) plural)
    refine ⟨plural, pluralPossessive plural, ?_, ?_, fun hnone => ⟨back, ?_, ?_⟩⟩
    · rw [surface_of_hasClass (by decide)]
      exact congrArg Except.ok hplural
    · rw [surface_of_hasClass (by decide)]
      exact congrArg Except.ok (possessiveForm_of_plural (by decide) hplural)
    · rw [base_of_hasClass (by decide)]
      exact congrArg Except.ok hback
    -- the possessive ending is taken off first, and what is left is the plural
    · have hform := @possessiveBase_of_withoutPossessive m (.ofList [.plural, .possessive]) _ plural
        (base?_eq_none hnone) (withoutPossessive_pluralPossessive plural)
      rw [if_pos (by decide), hback] at hform
      rw [base_of_hasClass (by decide)]
      exact congrArg Except.ok hform

/-- An irregular plural, and an irregular possessive of another word. -/
def irregularMen : Irregulars :=
  { forms := [⟨.plural, "man", "men"⟩, ⟨.possessive, "it", "its"⟩], nouns := ["man", "it"] }

/-- A phrase whose first word has an irregular plural, as a possessive, as the possessive of its
plural, and back. -/
theorem base_surface_possessive_man_of_war :
    (∃ form, irregularMen.surface "man of war" (.single .possessive) = .ok (some form)
        ∧ irregularMen.base form (.single .possessive) = .ok (some "man of war"))
      ∧ irregularMen.surface "man of war" (.ofList [.plural, .possessive]) = .ok (some "men of war's")
      ∧ ∃ plural back, irregularMen.surface "man of war" (.single .plural) = .ok (some plural)
        ∧ irregularMen.base plural (.single .plural) = .ok (some back)
        ∧ irregularMen.base "men of war's" (.ofList [.plural, .possessive]) = .ok (some back) := by
  obtain ⟨hsingular, plural, form, hplural, hform, hback⟩ :=
    base_surface_possessive irregularMen "man of war"
  have hmen : irregularMen.surface "man of war" (.ofList [.plural, .possessive])
      = .ok (some "men of war's") := by
    rw [surface_of_hasClass (by decide)]
    exact congrArg Except.ok (by decide +kernel)
  obtain rfl : form = "men of war's" := by
    rw [hmen] at hform
    exact (Option.some.inj (Except.ok.inj hform)).symm
  obtain ⟨back, hplural_back, hform_back⟩ := hback (by decide +kernel)
  exact ⟨hsingular (by decide +kernel), hmen, plural, back, hplural, hplural_back, hform_back⟩

end Irregulars

end Utterance
