import Utterance.Proofs.Vocabulary.Edits

/-!
# Words with one letter more

A word is lengthened by one pass along each candidate that passes over a letter as soon as it has to. No
position is tried a second time, yet nothing is missed: a letter that may be passed over later may as
well be passed over where the candidate first differs, since up to the later one all letters repeat. So
the word that is found is the first one in its bin from which a letter can be erased.
-/

namespace Utterance.Vocabulary

variable {cs longer : List Char}

/-- Whether a word is longer than `cs` by one character, and is `cs` without it. -/
def IsOneLonger (cs : List Char) (longer : String) : Prop :=
  longer.length = cs.length + 1 ∧ ∃ i, i < longer.length ∧ longer.toList.eraseIdx i = cs

/-! ## One pass -/

theorem fits_self (room : Bool) (cs : List Char) : fits room cs cs = true := by
  induction cs with
  | nil => rw [fits]
  | cons c cs ih => rw [fits, if_pos rfl, ih]

/-- A letter in front is passed over, or it repeats the next one and then a later one is. -/
theorem fits_cons (c : Char) (cs : List Char) : fits true cs (c :: cs) = true := by
  induction cs generalizing c with
  | nil => rw [fits, fits, Bool.true_and]
  | cons d cs ih =>
    rw [fits]
    split
    · exact ih d
    · rw [Bool.true_and, fits_self]

/-- A letter may be put in anywhere. -/
theorem fits_append_cons (front : List Char) (c : Char) (back : List Char) :
    fits true (front ++ back) (front ++ c :: back) = true := by
  induction front with
  | nil => exact fits_cons c back
  | cons d front ih =>
    rw [List.cons_append, List.cons_append, fits, if_pos rfl]
    exact ih

/-- The pass along a list that is one longer succeeds just if a character can be erased from it. -/
theorem fits_iff_exists_eraseIdx (hlength : longer.length = cs.length + 1) :
    fits true cs longer = true ↔ ∃ i, i < longer.length ∧ longer.eraseIdx i = cs := by
  constructor
  · intro h
    obtain ⟨front, c, back, rfl, rfl⟩ := exists_of_fits h hlength
    refine ⟨front.length, by simp, ?_⟩
    rw [List.eraseIdx_append_of_length_le (Nat.le_refl _), Nat.sub_self, List.eraseIdx_cons_zero]
  · rintro ⟨i, hi, rfl⟩
    -- the list is what is left with the erased character put back
    have hsplit : longer.take i ++ longer[i] :: longer.drop (i + 1) = longer := by
      rw [← List.drop_eq_getElem_cons hi, List.take_append_drop]
    have hfits := fits_append_cons (longer.take i) longer[i] (longer.drop (i + 1))
    rw [hsplit, ← List.eraseIdx_eq_take_drop_succ] at hfits
    exact hfits

-- the letter that is put in may repeat the one before it, and it may come last
example : fits true ['b', 'o', 'k'] ['b', 'o', 'o', 'k'] = true
    ∧ fits true ['b', 'o', 'o'] ['b', 'o', 'o', 'k'] = true := by decide

/-! ## The search -/

/-- What a candidate is tested for. -/
theorem isOneLonger_iff {stored : String} :
    (stored.length == cs.length + 1 && fits true cs stored.toList) = true
      ↔ IsOneLonger cs stored := by
  rw [Bool.and_eq_true, beq_iff_eq, IsOneLonger]
  refine and_congr_right fun hlength => ?_
  rw [fits_iff_exists_eraseIdx (by rw [String.length_toList, hlength]), String.length_toList]

/-- There is a bin for every length but that of the empty word. -/
theorem getElem?_bins (v : Vocabulary) (length : Nat) :
    v.bins[min (length + 1) v.binCount - 1]? = some (v.bin (length + 1)) := by
  have hbins := v.two_le_bins
  have hindex : (v.binOf (length + 1)).toNat = min (length + 1) v.binCount - 1 := by
    simp only [binOf, binCount]
    omega
  have hlt : min (length + 1) v.binCount - 1 < v.bins.length := by
    simp only [binCount]
    omega
  rw [bin, hindex, List.getD_eq_getElem?_getD, List.getElem?_eq_getElem hlt, Option.getD_some]

/-- A word is lengthened to the first word of the bin for its length and one more from which a character
can be erased so that the word is left, and to nothing just if there is none in that bin. -/
theorem lengthen_finds_first (v : Vocabulary) (word : String) :
    let cs := (Text.lower word).toList
    let bin := v.bin (cs.length + 1)
    v.bins[min (cs.length + 1) v.binCount - 1]? = some bin
      ∧ (∀ found, v.lengthen word = some found
        ↔ ∃ before after, bin = before ++ found :: after ∧ IsOneLonger cs found
          ∧ ∀ other ∈ before, ¬ IsOneLonger cs other)
      ∧ (v.lengthen word = none ↔ ∀ stored ∈ bin, ¬ IsOneLonger cs stored) := by
  intro cs bin
  have hsearch : v.lengthen word
      = bin.find? fun stored => stored.length == cs.length + 1 && fits true cs stored.toList := rfl
  -- the bin, what is found in it, and when nothing is
  refine ⟨getElem?_bins v cs.length, fun found => ?_, ?_⟩
  · rw [hsearch, List.find?_eq_some_iff_append]
    constructor
    · rintro ⟨hfound, before, after, hbin, hbefore⟩
      refine ⟨before, after, hbin, isOneLonger_iff.1 hfound, fun other hother hlonger => ?_⟩
      have hpassed := hbefore other hother
      rw [isOneLonger_iff.2 hlonger] at hpassed
      cases hpassed
    · rintro ⟨before, after, hbin, hfound, hbefore⟩
      refine ⟨isOneLonger_iff.2 hfound, before, after, hbin, fun other hother => ?_⟩
      rw [Bool.not_eq_true', ← Bool.not_eq_true, isOneLonger_iff]
      exact hbefore other hother
  · rw [hsearch, List.find?_eq_none]
    simp only [isOneLonger_iff]

end Utterance.Vocabulary
