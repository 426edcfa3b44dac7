import Utterance.Proofs.Inflection.Ending

/-!
# Adverbs that lead back

An adverb is made of an adjective by its last letters, and the adjective is read off what is left when
the ending is cut off. A y that became i comes back always, and so does a word in a consonant other than l,
which is left alone. Of two l one is dropped, and it is put back if there is no vowel but a single one right
before it; a longer word keeps the one that it has. An e is dropped after a vowel only, but it is put back
after an e as well, where none was dropped. So an adjective in e leads back only if a vowel other than i
stands before the e, and `nicely` leads to `nicee`.
-/

namespace Utterance.Suffix

variable {w rest : List Char} {z : Char}

/-! ## The vowels of a word -/

/-- Whether a word, given from its last letter to its first, ends in a vowel and has no other one. -/
def endsInLoneVowel (w : List Char) : Bool := endsInVowel w && !w.tail.any isVowel

/-- A word without groups of vowels has no vowel. -/
theorem vowelGroups_eq_zero_iff (w : List Char) :
    vowelGroups false w = 0 ↔ w.any isVowel = false := by
  induction w with
  | nil => simp [vowelGroups]
  | cons c w ih =>
    cases hc : isVowel c with
    | true => simp [vowelGroups, hc]
    | false => simp [vowelGroups, hc, ih]

/-- Behind a consonant it does not matter that a vowel came before. -/
theorem vowelGroups_of_endsInVowel_eq_false (h : endsInVowel w = false) :
    vowelGroups true w = vowelGroups false w := by
  cases w with
  | nil => rfl
  | cons c w =>
    have hc : isVowel c = false := by simpa [endsInVowel] using h
    simp [vowelGroups, hc]

/-- A word that ends in a vowel has one. -/
theorem any_isVowel_of_endsInVowel (h : endsInVowel w = true) : w.any isVowel = true := by
  cases w with
  | nil => cases h
  | cons c w => simp_all [endsInVowel]

/-- A word that lost an l is one whose only vowel stands right before the l that is left. Vowels are
counted in groups from the end of the word, and one group of a single vowel is what the condition
comes down to. -/
theorem lostL_cons (w : List Char) : lostL ('l' :: w) = endsInLoneVowel w := by
  cases w with
  | nil => rfl
  | cons v w =>
    cases hv : isVowel v with
    | false => simp [lostL, endsInLoneVowel, endsInVowel, hv]
    | true =>
      cases hvowel : endsInVowel w with
      | true =>
        have hany := any_isVowel_of_endsInVowel hvowel
        simp [lostL, endsInLoneVowel, hvowel, hany]
      | false =>
        -- the vowel is a group by itself, so it is the only group if no vowel comes before it
        have hl : isVowel 'l' = false := by decide
        have hgroups : vowelGroups false ('l' :: v :: w) = 1 + vowelGroups false w := by
          simp [vowelGroups, hl, hv, vowelGroups_of_endsInVowel_eq_false hvowel]
        have hone : (vowelGroups false ('l' :: v :: w) == 1) = !w.any isVowel := by
          rw [hgroups, Bool.eq_iff_iff, beq_iff_eq, Bool.not_eq_true', ← vowelGroups_eq_zero_iff]
          omega
        have hlost : lostL ('l' :: v :: w)
            = (isVowel v && !endsInVowel w && vowelGroups false ('l' :: v :: w) == 1) := rfl
        have hlone : endsInLoneVowel (v :: w) = (isVowel v && !w.any isVowel) := rfl
        rw [hlost, hlone, hone, hv, hvowel]
        rfl

/-! ## Putting the ending on and cutting it off -/

/-- What is left of an adverb when its ending is cut off. -/
def adverbStem (w : List Char) : List Char := (addLy w).drop 2

theorem addLy_eq (w : List Char) : addLy w = 'y' :: 'l' :: adverbStem w := rfl

/-- A final e is dropped after a vowel. -/
theorem adverbStem_e (rest : List Char) :
    adverbStem ('e' :: rest) = if endsInVowel rest then rest else 'e' :: rest := by
  cases rest with
  | nil => rfl
  | cons y rest => cases hy : isVowel y <;> simp [adverbStem, addLy, endsInVowel, hy]

/-- Other words than those in e, y and two l are left alone. -/
theorem adverbStem_eq_self (he : z ≠ 'e') (hy : z ≠ 'y') (hl : z = 'l' → rest.head? ≠ some 'l') :
    adverbStem (z :: rest) = z :: rest := by
  unfold adverbStem addLy
  split <;> simp_all

/-- What ends in an l after a lone vowel gets a second one back. -/
theorem restoreAdjective_l (rest : List Char) :
    restoreAdjective ('l' :: rest)
      = if endsInLoneVowel rest then 'l' :: 'l' :: rest else 'l' :: rest := by
  rw [← lostL_cons]
  rfl

/-- After a final vowel an e is missed, unless the vowel is the i that stands for a y. A word on an
l has rules of its own, so it is left out here. -/
theorem restoreAdjective_cons (hl : z ≠ 'l') :
    restoreAdjective (z :: rest)
      = if z = 'i' then 'y' :: rest else if isVowel z then 'e' :: z :: rest else z :: rest := by
  have hlost : lostL (z :: rest) = false := by
    unfold lostL
    split <;> simp_all
  cases hz : isVowel z with
  | true =>
    have hvowels : z = 'a' ∨ z = 'e' ∨ z = 'i' ∨ z = 'o' ∨ z = 'u' := by
      simpa [isVowel, or_assoc] using hz
    rcases hvowels with rfl | rfl | rfl | rfl | rfl <;> simp [restoreAdjective, hlost]
  | false =>
    have hi : z ≠ 'i' := by
      rintro rfl
      cases hz
    unfold restoreAdjective
    split
    · simp_all
    · rw [hlost, if_neg hi, if_neg Bool.false_ne_true, if_neg Bool.false_ne_true]
      split <;> simp_all [isVowel]

/-! ## Words that come back -/

theorem hasAt_one (z : Char) (rest : List Char) (kind : Char → Bool) :
    hasAt (z :: rest) 1 kind = kind z := rfl

theorem hasAt_two (z : Char) (rest : List Char) (kind : Char → Bool) :
    hasAt (z :: rest) 2 kind = rest.head?.any kind := by
  cases rest <;> rfl

/-- Whether an adjective, given from its last letter to its first, is what its adverb leads back to. -/
def adverbComesBack (w : List Char) : Bool :=
  if hasAt w 1 (· == 'l') then
    if hasAt w 2 (· == 'l') then endsInLoneVowel (w.drop 2) else !endsInLoneVowel w.tail
  else if hasAt w 1 (· == 'e') then hasAt w 2 ['a', 'e', 'o', 'u'].contains
  else !hasAt w 1 isVowel

/-- A dropped e is missed after every vowel but i. -/
theorem contains_eq_isVowel (y : Char) :
    ['a', 'e', 'o', 'u'].contains y = (isVowel y && y != 'i') := by
  by_cases hi : y = 'i'
  · subst hi
    decide
  · rw [Bool.eq_iff_iff]
    simp [isVowel, hi, or_assoc]

/-- Which words on an l come back: one of two is dropped and put back if the vowel before it stands
alone, and a single one is left alone if the vowel before it does not. -/
theorem restoreAdjective_l_iff (rest : List Char) :
    restoreAdjective (adverbStem ('l' :: rest)) = 'l' :: rest
      ↔ adverbComesBack ('l' :: rest) = true := by
  by_cases hdouble : rest.head? = some 'l'
  -- one of the two is dropped, and what is left asks for it if its vowel stands alone
  · obtain ⟨rest, rfl⟩ := List.head?_eq_some_iff.1 hdouble
    have hstem : adverbStem ('l' :: 'l' :: rest) = 'l' :: rest := rfl
    have hback : adverbComesBack ('l' :: 'l' :: rest) = endsInLoneVowel rest := rfl
    rw [hstem, restoreAdjective_l, hback]
    cases endsInLoneVowel rest <;> simp
  -- a word in a single l is left alone, and must not ask for another one
  · have hback : adverbComesBack ('l' :: rest) = !endsInLoneVowel rest := by
      have hsingle : hasAt ('l' :: rest) 2 (· == 'l') = false := by
        rw [hasAt_two]
        cases rest <;> simp_all
      simp [adverbComesBack, hasAt_one, hsingle]
    rw [adverbStem_eq_self (by decide) (by decide) (fun _ => hdouble), restoreAdjective_l, hback]
    cases endsInLoneVowel rest <;> simp

/-- Which words on an e come back. The e may have been dropped, with an l or after one, or kept. -/
theorem restoreAdjective_e_iff (rest : List Char) :
    restoreAdjective (adverbStem ('e' :: rest)) = 'e' :: rest
      ↔ adverbComesBack ('e' :: rest) = true := by
  have hback : adverbComesBack ('e' :: rest) = rest.head?.any ['a', 'e', 'o', 'u'].contains := by
    simp [adverbComesBack, hasAt_one, hasAt_two]
  have hkept : restoreAdjective ('e' :: rest) ≠ 'e' :: rest := by
    rw [restoreAdjective_cons (by decide)]
    simp [isVowel]
  rw [hback, adverbStem_e]
  cases rest with
  | nil => exact iff_of_false hkept (by decide)
  | cons y rest =>
    have hends : endsInVowel (y :: rest) = isVowel y := rfl
    rw [hends, List.head?_cons, Option.any_some, contains_eq_isVowel]
    cases hy : isVowel y with
    -- the e was kept, but another one is put behind it
    | false => exact iff_of_false hkept Bool.false_ne_true
    -- the e was dropped, and it is missed unless what is left ends in an i
    | true =>
      have hl : y ≠ 'l' := by
        rintro rfl
        cases hy
      rw [if_pos rfl, restoreAdjective_cons hl, hy]
      by_cases hi : y = 'i' <;> simp [hi]

/-- Which other words come back: the ending was put behind them as they are, or a y became an i. -/
theorem restoreAdjective_other_iff (hl : z ≠ 'l') (he : z ≠ 'e') :
    restoreAdjective (adverbStem (z :: rest)) = z :: rest
      ↔ adverbComesBack (z :: rest) = true := by
  have hback : adverbComesBack (z :: rest) = !isVowel z := by
    simp [adverbComesBack, hasAt_one, hl, he]
  rw [hback]
  by_cases hy : z = 'y'
  · subst hy
    exact iff_of_true rfl rfl
  · rw [adverbStem_eq_self he hy (fun heq => absurd heq hl), restoreAdjective_cons hl]
    -- a stem that ends in i has lost a y, so a word that ends so itself does not come back
    by_cases hi : z = 'i'
    · simp [hi, isVowel]
    · rw [if_neg hi]
      cases isVowel z <;> simp

/-- Exactly the words that their last letters say come back. -/
theorem restoreAdjective_adverbStem_iff (w : List Char) :
    restoreAdjective (adverbStem w) = w ↔ adverbComesBack w = true := by
  cases w with
  | nil => decide
  | cons z rest =>
    by_cases hl : z = 'l'
    · exact hl ▸ restoreAdjective_l_iff rest
    · by_cases he : z = 'e'
      · exact he ▸ restoreAdjective_e_iff rest
      · exact restoreAdjective_other_iff hl he

/-- An adverb leads back to the adjective that it was made of exactly if the last letters of the adjective
say so. They do if it ends in y or in a consonant other than l, in an e after a vowel other than i, or in two
l after the only vowel of the word. -/
theorem withoutLy_withLy_iff (word : String) :
    withoutLy (withLy word) = word ↔ adverbComesBack word.toList.reverse = true := by
  have hadverb : (withLy word).toList
      = (adverbStem word.toList.reverse).reverse ++ ['l', 'y'] := by
    simp [withLy, fromEnd, addLy_eq]
  have hstem : Text.upTo (-2) (withLy word).toList = (adverbStem word.toList.reverse).reverse := by
    rw [hadverb]
    exact @upTo_append _ ['l', 'y'] (by decide)
  rw [← restoreAdjective_adverbStem_iff, ← String.toList_inj, withoutLy, hstem, fromEnd,
    String.toList_ofList, String.toList_ofList, List.reverse_reverse, List.reverse_eq_iff]

/-- `nice` ends in an e that no i precedes, and its adverb keeps it. Taking the ending off gives
`nice` again, behind which a second e is put. -/
theorem withoutLy_withLy_nice :
    let w := "nice".toList.reverse
    2 ≤ w.length ∧ hasAt w 1 (· == 'e') = true ∧ hasAt w 2 (· == 'i') = false
      ∧ withLy "nice" = "nicely" ∧ withoutLy "nicely" = "nicee" := by
  decide

end Utterance.Suffix
