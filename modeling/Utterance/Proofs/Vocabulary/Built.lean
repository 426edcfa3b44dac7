import Utterance.Proofs.Text.LowerCase
import Utterance.Proofs.Vocabulary.Bins
import Utterance.Vocabulary.Guess
import Utterance.Vocabulary.Repair

/-!
# Vocabularies that can be built

A vocabulary is built from an empty one by operations on it. Whatever they are, its words are stored in
lower case, so a word that is read from a bin is known.
-/

namespace Utterance.Vocabulary

/-- What one operation makes of a vocabulary. -/
inductive Change (v : Vocabulary) : Vocabulary → Prop where
  | add (word : String) : Change v (v.add word).1
  | remove (word : String) : Change v (v.remove word).1
  | clear : Change v v.clear
  | harvest (g : Grammar) : Change v (v.harvest g).state
  | repair (text : Option String) : Change v (v.repair text).state
  | guess (text : String) : Change v (v.guess text).1

/-- The vocabularies that the operations lead to. -/
inductive Built : Vocabulary → Prop where
  | empty {n : Int} {substitute : Bool} {v : Vocabulary} (bins : ofBins n substitute = .ok v) : Built v
  | change {v u : Vocabulary} (built : Built v) (change : v.Change u) : Built u

variable {v u : Vocabulary} {word stored : String}

/-! ## Stored words -/

/-- The words of a vocabulary are those of its bins. -/
theorem mem_words_iff : stored ∈ v.words ↔ ∃ k, stored ∈ v.binAt k := by
  rw [words, List.mem_flatten]
  constructor
  · rintro ⟨bin, hbin, hstored⟩
    obtain ⟨k, hk, rfl⟩ := List.mem_iff_getElem.1 hbin
    exact ⟨k, by simpa [binAt, List.getD_eq_getElem?_getD, hk] using hstored⟩
  · rintro ⟨k, hstored⟩
    rw [binAt, List.getD_eq_getElem?_getD] at hstored
    cases hbin : v.bins[k]? with
    | none => simp [hbin] at hstored
    | some bin =>
      rw [hbin] at hstored
      exact ⟨bin, List.mem_of_getElem? hbin, hstored⟩

/-- A vocabulary whose words are stored in lower case. -/
def Lowered (v : Vocabulary) : Prop := ∀ k, ∀ stored ∈ v.binAt k, Text.lower stored = stored

/-- Whether words are stored in lower case depends on the bins only. -/
theorem Lowered.congr (h : v.Lowered) (hbins : u.bins = v.bins) : u.Lowered := by
  intro k stored hstored
  rw [binAt, hbins] at hstored
  exact h k stored hstored

/-- Empty bins have only small words. -/
theorem lowered_of_forall (h : ∀ bin ∈ v.bins, bin = []) : v.Lowered := by
  intro k stored hstored
  obtain ⟨bin, hbin, hmem⟩ := List.mem_flatten.1 (mem_words_iff.2 ⟨k, hstored⟩)
  rw [h bin hbin] at hmem
  cases hmem

/-- A word is stored in lower case. -/
theorem Lowered.add (h : v.Lowered) (word : String) : (v.add word).1.Lowered := by
  rcases add_cases v word with ⟨hsame, _⟩ | ⟨hadd, _, _⟩
  · rw [hsame]
    exact h
  · intro k stored hstored
    rw [hadd, binAt_modifyBin] at hstored
    split at hstored
    -- the new word is put behind the others in its bin
    · rcases List.mem_append.1 hstored with hstored | hstored
      · exact h k stored hstored
      · rw [List.mem_singleton.1 hstored, Text.lower_lower]
    · exact h k stored hstored

/-- Taking a word out leaves the others in lower case. -/
theorem Lowered.remove (h : v.Lowered) (word : String) : (v.remove word).1.Lowered := by
  rcases remove_cases v word with ⟨hsame, _⟩ | hremove
  · rw [hsame]
    exact h
  · intro k stored hstored
    rw [hremove, binAt_modifyBin] at hstored
    split at hstored
    · exact h k stored (List.mem_of_mem_erase hstored)
    · exact h k stored hstored

/-- A cleared vocabulary has only small words, since it has none. -/
theorem lowered_clear (v : Vocabulary) : v.clear.Lowered := by
  apply lowered_of_forall
  intro bin hbin
  obtain ⟨_, _, rfl⟩ := List.mem_map.1 hbin
  rfl

/-- Several words are stored in lower case. -/
theorem Lowered.addAll (h : v.Lowered) (words : List String) : (v.addAll words).1.Lowered := by
  rw [addAll_fst]
  induction words generalizing v with
  | nil => exact h
  | cons word words ih => exact ih (h.add word)

/-- The operations store words in lower case. Repairing and guessing leave the bins, and a harvest
begins with a cleared vocabulary. -/
theorem Built.lowered (h : v.Built) : v.Lowered := by
  induction h with
  | empty hbins =>
    -- all bins of a new vocabulary are empty
    unfold ofBins at hbins
    split at hbins
    · cases hbins
    · cases hbins
      apply lowered_of_forall
      intro bin hbin
      exact List.eq_of_mem_replicate hbin
  | change _ hchange ih =>
    cases hchange with
    | add word => exact ih.add word
    | remove word => exact ih.remove word
    | clear => exact lowered_clear _
    | harvest g => exact (lowered_clear _).addAll g.terminals
    | repair text =>
      refine ih.congr ?_
      cases text with
      | none => rfl
      | some text =>
        simp only [Vocabulary.repair]
        split <;> rfl
    | guess text => exact ih.congr rfl

/-- A word that is read from the bin of its length is known. It is stored in lower case, so looking
it up leads to the same bin. -/
theorem Built.known_of_mem_bin (h : v.Built) (hstored : stored ∈ v.bin stored.length)
    (hne : stored ≠ "") : v.known stored = true := by
  rw [bin_length] at hstored
  rw [known_iff, h.lowered _ _ hstored]
  exact ⟨hne, .inr hstored⟩

/-- Adding several words leads to a built vocabulary. -/
theorem Built.addAll (h : v.Built) (words : List String) : (v.addAll words).1.Built := by
  rw [addAll_fst]
  induction words generalizing v with
  | nil => exact h
  | cons word words ih => exact ih (h.change (.add word))

/-- A vocabulary of twelve bins with some words. -/
def ofWords (words : List String) : Vocabulary :=
  (addAll { bins := List.replicate 12 [], two_le_bins := by decide } words).1

theorem built_ofWords (words : List String) : (ofWords words).Built :=
  Built.addAll (@Built.empty 12 false _ rfl) words

end Utterance.Vocabulary
