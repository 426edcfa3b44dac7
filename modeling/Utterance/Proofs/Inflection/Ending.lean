import Utterance.Inflection.Suffix

/-!
# Endings that come off again

A word is adapted before an ending that starts with a vowel, and what was done is read off the last four
letters when the ending is cut off. It is a matter of these letters whether the word comes back: a doubled
consonant must be one that is not double in the first place, a dropped e must be missed, and a word that
was left alone must not look like one that was changed. A y that became i comes back always, and so does
a word with a hyphen behind it.
-/

namespace Utterance.Suffix

variable {w rest : List Char} {first y z : Char}

/-! ## Places in a word -/

/-- Whether a word, given from its last letter to its first, has a letter of a kind at a place. The last
letter is the first place. -/
def hasAt (w : List Char) (place : Nat) (kind : Char → Bool) : Bool := w[place - 1]?.any kind

/-- A consonant that is none of the given ones. -/
def isConsonantBut (others : List Char) (c : Char) : Bool := !isVowel c && !others.contains c

/-- Whether a word ends in a single vowel and a consonant other than r, w and y. -/
def endsShort (w : List Char) : Bool :=
  hasAt w 2 isVowel && hasAt w 1 (isConsonantBut ['r', 'w', 'y']) && !hasAt w 3 isVowel

/-- Whether a word ends in a single vowel and a consonant twice, other than f, l, s and z. -/
def endsTwice (w : List Char) : Bool :=
  hasAt w 3 isVowel && hasAt w 2 (fun y => hasAt w 1 (· == y))
    && hasAt w 1 (isConsonantBut ['f', 'l', 's', 'z']) && !hasAt w 4 isVowel

/-- Whether a word ends in c, s or z after a vowel or n. -/
def endsSoft (w : List Char) : Bool :=
  hasAt w 1 ['c', 's', 'z'].contains && hasAt w 2 (fun y => isVowel y || y == 'n')

/-- Whether a word, given from its last letter to its first, comes back when the ending that was added to
it is cut off. -/
def comesBack (w : List Char) (ending : String) : Bool :=
  if endsShort w then !hasAt w 1 ['f', 'l', 's', 'z'].contains
  else if 2 ≤ w.length && hasAt w 1 (· == 'e')
      && (ending.toList.head? == some 'e' || !hasAt w 2 isVowel) then
    !hasAt w.tail 1 (· == '-') && !endsTwice w.tail && (endsSoft w.tail || endsShort w.tail)
  else if 2 ≤ w.length && hasAt w 1 (· == 'y') && !hasAt w 2 isVowel && ending != "ing" then true
  else if w.contains '-' then true
  else !endsTwice w && !endsSoft w && !hasAt w 1 (· == 'i')

/-- Whether the last letter is doubled can be told from three letters. -/
theorem doublesEnd_eq (w : List Char) : doublesEnd w = endsShort w := by
  rcases w with _ | ⟨z, _ | ⟨v, w⟩⟩
  · rfl
  · simp [doublesEnd, endsShort, hasAt]
  · cases w <;> simp [doublesEnd, endsShort, hasAt, isConsonantBut, endsInVowel] <;> grind

/-- Whether a word ends in a doubled letter can be told from two. -/
theorem hasDoubledEnd_eq (w : List Char) : hasDoubledEnd w = endsTwice w := by
  rcases w with _ | ⟨z, _ | ⟨y, _ | ⟨v, w⟩⟩⟩
  · rfl
  · simp [hasDoubledEnd, endsTwice, hasAt]
  · simp [hasDoubledEnd, endsTwice, hasAt]
  · cases w <;> simp [hasDoubledEnd, endsTwice, hasAt, isConsonantBut, endsInVowel] <;> grind

/-- Whether an e may have been dropped can be told from the letters that are left. -/
theorem softEnd_eq (w : List Char) : softEnd w = endsSoft w := by
  rcases w with _ | ⟨z, _ | ⟨y, w⟩⟩
  · rfl
  · simp [softEnd, endsSoft, hasAt]
  · simp [softEnd, endsSoft, hasAt]; grind

/-! ## Cutting an ending off -/

/-- What is restored without a hyphen at the end: a doubled letter becomes single, an e is put back,
or an i turns into a y again, in this order. -/
theorem restore_eq (h : w.head? ≠ some '-') :
    restore w = if hasDoubledEnd w then w.tail
      else if softEnd w || doublesEnd w then 'e' :: w
      else if w.head? = some 'i' then 'y' :: w.tail
      else w := by
  cases w with
  | nil => rfl
  | cons c w =>
    have hc : c ≠ '-' := by simpa using h
    unfold restore
    split
    · simp_all
    · split
      · rfl
      · split
        · rfl
        · by_cases hi : c = 'i'
          · subst hi
            rfl
          · simp [hi]

/-- Where the last letter is doubled it is a consonant behind a single vowel. -/
theorem isVowel_of_doublesEnd (h : doublesEnd (z :: rest) = true) :
    ∃ v w, rest = v :: w ∧ isVowel v = true ∧ isVowel z = false ∧ endsInVowel w = false := by
  rcases rest with _ | ⟨v, w⟩
  · cases h
  · simp only [doublesEnd, Bool.and_eq_true, Bool.not_eq_true'] at h
    exact ⟨v, w, rfl, h.1.1.2, h.1.2, h.1.1.1⟩

/-- A doubled consonant becomes single again, unless it may be double in the first place. Such a
word is left as it is or gets longer, so it cannot come back. -/
theorem restore_doubled_eq_iff (h : doublesEnd (z :: rest) = true) :
    restore (z :: z :: rest) = z :: rest ↔ ['f', 'l', 's', 'z'].contains z = false := by
  obtain ⟨v, w, rfl, hv, hz, hgroup⟩ := isVowel_of_doublesEnd h
  by_cases hhyphen : z = '-'
  · subst hhyphen
    exact iff_of_true rfl rfl
  have htwice : hasDoubledEnd (z :: z :: v :: w) = !(['f', 'l', 's', 'z'].contains z) := by
    simp only [hasDoubledEnd, hgroup, hv, hz, List.contains_cons, List.contains_nil,
      beq_self_eq_true, Bool.not_false, Bool.and_true, Bool.true_and, Bool.or_false, Bool.or_assoc]
  rw [restore_eq (by simpa using hhyphen), htwice]
  cases hkeeps : ['f', 'l', 's', 'z'].contains z with
  | false => simp
  | true =>
    -- nothing else makes a word shorter
    have hi : z ≠ 'i' := by
      rintro rfl
      cases hz
    refine iff_of_false (fun heq => ?_) (by decide)
    have hlength := congrArg List.length heq
    simp only [Bool.not_true, Bool.false_eq_true, if_false, List.head?_cons, Option.some.injEq, hi]
      at hlength
    split at hlength <;> simp only [List.length_cons] at hlength <;> omega

/-- A dropped e is put back if what is left asks for one, and then the word is whole again. -/
theorem restore_eq_cons_iff (w : List Char) :
    restore w = 'e' :: w ↔ w.head? ≠ some '-' ∧ hasDoubledEnd w = false
      ∧ (softEnd w = true ∨ doublesEnd w = true) := by
  by_cases hhyphen : w.head? = some '-'
  · obtain ⟨rest, rfl⟩ := List.head?_eq_some_iff.1 hhyphen
    refine iff_of_false (fun heq => ?_) (fun h => h.1 rfl)
    have hlength : rest.length = rest.length + 2 := congrArg List.length heq
    omega
  rw [restore_eq hhyphen]
  -- all other ways of restoring leave a word of another length
  split
  · rename_i hdoubled
    refine iff_of_false (fun heq => ?_) (fun h => by simp [hdoubled] at h)
    have hlength := congrArg List.length heq
    simp at hlength
  · rename_i hsingle
    split
    · rename_i hasks
      exact iff_of_true rfl ⟨hhyphen, by simpa using hsingle, by simpa using hasks⟩
    · rename_i hasks
      refine iff_of_false (fun heq => ?_) (fun h => hasks (by simpa using h.2.2))
      have hlength := congrArg List.length heq
      split at hlength
      · rename_i hi
        obtain ⟨rest, rfl⟩ := List.head?_eq_some_iff.1 hi
        simp at hlength
      · simp at hlength

/-- An i after a consonant becomes a y. -/
theorem restore_i_cons (hy : isVowel y = false) :
    restore ('i' :: y :: rest) = 'y' :: y :: rest := by
  have hi : isVowel 'i' = true := by decide
  have hdoubled : hasDoubledEnd ('i' :: y :: rest) = false := by
    cases rest <;> simp [hasDoubledEnd, hi]
  rw [restore_eq (by simp), hdoubled]
  simp [softEnd, doublesEnd, hy]

/-- A word that was left alone stays as it is if nothing is to be restored. Each way of restoring
changes the length of the word or its last letter. -/
theorem restore_eq_self_iff (h : doublesEnd w = false) (hhyphen : '-' ∉ w) :
    restore w = w ↔ hasDoubledEnd w = false ∧ softEnd w = false ∧ w.head? ≠ some 'i' := by
  have hhead : w.head? ≠ some '-' := fun hhead => hhyphen (List.mem_of_mem_head? hhead)
  rw [restore_eq hhead, h]
  split
  · rename_i hdoubled
    refine iff_of_false (fun heq => ?_) (fun hall => by simp [hdoubled] at hall)
    -- a letter less, and below a letter more: neither is the word itself
    have hlength := congrArg List.length heq
    cases w <;> simp [hasDoubledEnd] at hlength hdoubled
  · rename_i hsingle
    split
    · rename_i hsoft
      refine iff_of_false (fun heq => ?_) (fun hall => by simp [hall.2.1] at hsoft)
      have hlength := congrArg List.length heq
      simp at hlength
    · rename_i hsoft
      split
      · rename_i hi
        obtain ⟨rest, rfl⟩ := List.head?_eq_some_iff.1 hi
        exact iff_of_false (by simp) (fun hall => hall.2.2 rfl)
      · rename_i hi
        exact iff_of_true rfl ⟨by simpa using hsingle, by simpa using hsoft, hi⟩

/-! ## Adapted words -/

theorem hasAt_last_iff {c : Char} :
    (2 ≤ w.length && hasAt w 1 (· == c)) = true ↔ ∃ y rest, w = c :: y :: rest := by
  rcases w with _ | ⟨z, _ | ⟨y, w⟩⟩ <;> simp [hasAt]

/-- What happens to a word before an ending, by the letters at its end: a short end is doubled, an e
is dropped, a y becomes an i, a word with a hyphen gets one more, and other words are left alone. -/
theorem adapt_eq (first : Char) (w : List Char) :
    adapt first w = if endsShort w then w.take 1 ++ w
      else if 2 ≤ w.length && hasAt w 1 (· == 'e') && (first == 'e' || !hasAt w 2 isVowel) then
        w.tail
      else if 2 ≤ w.length && hasAt w 1 (· == 'y') && !hasAt w 2 isVowel && first != 'i' then
        'i' :: w.tail
      else if w.contains '-' then '-' :: w
      else w := by
  unfold adapt
  rw [doublesEnd_eq]
  split
  · cases w <;> rfl
  · split
    · simp [hasAt]
    · simp [hasAt]
    -- the words that are matched are those with that letter last and one before it
    · rename_i he hy
      have hne : ∀ c, (∀ y rest, w = c :: y :: rest → False) →
          (2 ≤ w.length && hasAt w 1 (· == c)) = false := by
        intro c hc
        rw [Bool.eq_false_iff]
        intro hlast
        obtain ⟨y, rest, hw⟩ := hasAt_last_iff.1 hlast
        exact hc y rest hw
      rw [hne 'e' he, hne 'y' hy]
      rfl

/-- Exactly the words that the letters at their end say come back. The word is made ready for the
ending in one of four ways, and for each of them it is asked whether what was done is undone. -/
theorem restore_adapt_eq_iff {ending : String}
    (he : (ending.toList.head? == some 'e') = (first == 'e'))
    (hi : (ending != "ing") = (first != 'i')) (w : List Char) :
    restore (adapt first w) = w ↔ comesBack w ending = true := by
  rw [adapt_eq, comesBack, he, hi]
  -- one case for each way of adapting, in the same order on both sides
  split
  · rename_i hshort
    rw [← doublesEnd_eq] at hshort
    cases w with
    | nil => cases hshort
    | cons z rest =>
      rw [List.take_succ_cons, List.take_zero, List.singleton_append, restore_doubled_eq_iff hshort]
      simp [hasAt]
  · rename_i hshort
    rw [← doublesEnd_eq, Bool.not_eq_true] at hshort
    split
    -- a mute e was dropped, and it comes back where the rest asks for one
    · rename_i hmute
      obtain ⟨y, rest, rfl⟩ := hasAt_last_iff.1 (Bool.and_eq_true_iff.1 hmute).1
      rw [List.tail_cons, restore_eq_cons_iff, hasDoubledEnd_eq, softEnd_eq, doublesEnd_eq]
      simp [hasAt, and_assoc]
    · split
      · rename_i hy
        obtain ⟨⟨hy, hconsonant⟩, -⟩ := Bool.and_eq_true_iff.1 hy |>.imp_left Bool.and_eq_true_iff.1
        obtain ⟨y, rest, rfl⟩ := hasAt_last_iff.1 hy
        rw [List.tail_cons, restore_i_cons (by simpa [hasAt] using hconsonant)]
        simp
      · split
        · simp [restore]
        · rename_i hhyphen
          rw [restore_eq_self_iff hshort (by simpa using hhyphen), hasDoubledEnd_eq, softEnd_eq]
          cases w <;> simp [hasAt, and_assoc]

/-! ## On words -/

/-- What was put behind a text is cut off again. -/
theorem upTo_append (xs : List Char) {ys : List Char} (h : ys ≠ []) :
    Text.upTo (-(ys.length : Int)) (xs ++ ys) = xs := by
  have hpos := List.length_pos_iff.2 h
  have htake : (((xs ++ ys).length : Int) + -(ys.length : Int)).toNat = xs.length := by
    rw [List.length_append]
    omega
  rw [Text.upTo, if_pos (by omega), htake, List.take_left]

/-- An ending that starts with a vowel can be added to any word, and cutting it off gives the word back
exactly if the letters at its end say so. -/
theorem withoutEnding_withEnding_iff (word : String) {ending : String}
    (h : ending ∈ ["ing", "ed", "er", "est"]) :
    ∃ form, withEnding word ending = .ok form
      ∧ (withoutEnding form ending.length = word
        ↔ comesBack word.toList.reverse ending = true) := by
  obtain ⟨first, rest, hletters, he, hi⟩ : ∃ first rest, ending.toList = first :: rest
      ∧ (ending.toList.head? == some 'e') = (first == 'e')
      ∧ (ending != "ing") = (first != 'i') := by
    simp only [List.mem_cons, List.not_mem_nil, or_false] at h
    rcases h with rfl | rfl | rfl | rfl <;> exact ⟨_, _, rfl, by decide, by decide⟩
  have hform : withEnding word ending
      = .ok (String.ofList ((adapt first word.toList.reverse).reverse ++ ending.toList)) := by
    simp [withEnding, hletters, addVowel, Except.map]
  refine ⟨_, hform, ?_⟩
  rw [← restore_adapt_eq_iff he hi]
  -- cutting the ending off leaves what was put before it, and the word is restored from that
  have hcut : withoutEnding (String.ofList ((adapt first word.toList.reverse).reverse ++ ending.toList))
      ending.length = String.ofList (restore (adapt first word.toList.reverse)).reverse := by
    rw [withoutEnding, String.toList_ofList, ← String.length_toList,
      upTo_append _ (by simp [hletters])]
    simp [fromEnd]
  rw [hcut, ← String.toList_inj, String.toList_ofList, List.reverse_eq_iff]

/-- `stopped` leads to `stop`, but `bussed` does not lead to `bus`. -/
theorem withoutEnding_withEnding_stop :
    "ed" ∈ ["ing", "ed", "er", "est"]
      ∧ (∃ form, withEnding "stop" "ed" = .ok form ∧ withoutEnding form "ed".length = "stop")
      ∧ ∃ form, withEnding "bus" "ed" = .ok form ∧ withoutEnding form "ed".length ≠ "bus" := by
  have hed : "ed" ∈ ["ing", "ed", "er", "est"] := by decide
  obtain ⟨stopped, hstopped, hstop⟩ := withoutEnding_withEnding_iff "stop" hed
  obtain ⟨bussed, hbussed, hbus⟩ := withoutEnding_withEnding_iff "bus" hed
  exact ⟨hed, ⟨stopped, hstopped, hstop.2 (by decide)⟩,
    bussed, hbussed, fun heq => absurd (hbus.1 heq) (by decide)⟩

end Utterance.Suffix
