import Utterance.Proofs.Text.Number
import Utterance.Proofs.Vocabulary.Built

/-!
# Where words are filed

A word is stored in lower case, but its bin is chosen by the length of the spelling it came in. The two go
together as long as lower case keeps the length, or the word is long enough for the last bin anyway: then a
stored word is in the bin of its own length and nowhere else, and it is known in every spelling. One
capital becomes two characters. A word spelled with it is filed one bin too early, where a look for the
stored word passes it by, and can come in a second time.
-/

namespace Utterance.Vocabulary

variable {v u : Vocabulary} {word stored a b : String} {added : List String} {k : Nat}

/-! ## Spellings of a word -/

/-- A spelling with the same bin as its lower case. -/
def KeepsBin (v : Vocabulary) (word : String) : Prop := v.binIndex (Text.lower word) = v.binIndex word

instance (v : Vocabulary) (word : String) : Decidable (v.KeepsBin word) :=
  inferInstanceAs (Decidable (_ = _))

theorem keepsBin_of_length (h : (Text.lower word).length = word.length) : v.KeepsBin word := by
  rw [KeepsBin, binIndex, h, binIndex]

/-- Two spellings with one bin are both known or both not: what is looked up is the small form. -/
theorem known_eq_of_lower_eq (hlower : Text.lower a = Text.lower b) (hbin : v.binIndex a = v.binIndex b) :
    v.known a = v.known b := by
  have hempty : a ≠ "" ↔ b ≠ "" := by
    rw [ne_eq, ne_eq, ← Text.lower_eq_empty_iff, hlower, Text.lower_eq_empty_iff]
  have hnumber : Text.isNumber a = Text.isNumber b := by
    rw [← Text.isNumber_lower a, hlower, Text.isNumber_lower]
  rw [Bool.eq_iff_iff, known_iff, known_iff, hempty, hnumber, hlower, hbin]

/-! ## Updates -/

/-- A change of the word list. -/
inductive Update where
  | add (word : String)
  | remove (word : String)
  | clear
  | harvest (g : Grammar)

namespace Update

/-- The vocabulary after a change. -/
def run (v : Vocabulary) : Update → Vocabulary
  | add word => (v.add word).1
  | remove word => (v.remove word).1
  | clear => v.clear
  | harvest g => (v.harvest g).state

/-- The words that a change puts in, as they are spelled. -/
def words : Update → List String
  | add word => [word]
  | remove _ => []
  | clear => []
  | harvest g => g.terminals

/-- Every update is one of the operations of a vocabulary. -/
theorem change (update : Update) (v : Vocabulary) : v.Change (update.run v) := by
  cases update with
  | add word => exact .add word
  | remove word => exact .remove word
  | clear => exact .clear
  | harvest g => exact .harvest g

end Update

/-- The vocabulary after changes. -/
def updated (v : Vocabulary) (updates : List Update) : Vocabulary := updates.foldl Update.run v

/-- Updates lead from a built vocabulary to built ones. -/
theorem Built.updated (h : v.Built) (updates : List Update) : (v.updated updates).Built := by
  induction updates generalizing v with
  | nil => exact h
  | cons update updates ih => exact ih (h.change (update.change v))

/-! ## Filed words -/

/-- A vocabulary whose bins have no word twice, and each of their words from an added one that belongs to
the bin. -/
structure Filed (v : Vocabulary) (added : List String) : Prop where
  nodup : ∀ k, (v.binAt k).Nodup
  origin : ∀ k, ∀ stored ∈ v.binAt k,
    ∃ word ∈ added, word ≠ "" ∧ Text.lower word = stored ∧ v.binIndex word = k

namespace Filed

/-- A vocabulary without words has them filed. -/
theorem of_words_eq_nil (h : v.words = []) (added : List String) : Filed v added := by
  have hnil : ∀ k, v.binAt k = [] := by
    intro k
    apply List.eq_nil_iff_forall_not_mem.2
    intro stored hstored
    have hmem := mem_words_iff.2 ⟨k, hstored⟩
    rw [h] at hmem
    cases hmem
  constructor
  · intro k
    rw [hnil]
    exact List.nodup_nil
  · intro k stored hstored
    rw [hnil] at hstored
    cases hstored

/-- More words may have been added. -/
theorem mono (h : Filed v added) {more : List String} (hmore : ∀ word ∈ added, word ∈ more) :
    Filed v more where
  nodup := h.nodup
  origin k stored hstored := by
    obtain ⟨word, hword, hrest⟩ := h.origin k stored hstored
    exact ⟨word, hmore word hword, hrest⟩

/-- An added word is filed: it goes to its own bin, and only if it is not there. -/
theorem add (h : Filed v added) (hword : word ∈ added) : Filed (v.add word).1 added := by
  rcases add_cases v word with ⟨hsame, _⟩ | ⟨hadd, hne, hunknown⟩
  · rw [hsame]
    exact h
  · have hfresh := not_mem_of_known_eq_false hne hunknown
    have hindex := binIndex_congr (length_bins_modifyBin v word (· ++ [Text.lower word]))
    rw [hadd]
    constructor
    · intro k
      rw [binAt_modifyBin]
      split
      · -- a word that is not known is not in its bin
        rename_i hk
        rw [hk, List.nodup_append]
        refine ⟨h.nodup _, List.pairwise_singleton _ _, fun x hx y hy hxy => ?_⟩
        rw [hxy, List.mem_singleton.1 hy] at hx
        exact hfresh hx
      · exact h.nodup k
    · intro k stored hstored
      simp only [hindex]
      rw [binAt_modifyBin] at hstored
      split at hstored
      · rename_i hk
        rcases List.mem_append.1 hstored with hold | hnew
        · exact h.origin k stored hold
        · exact ⟨word, hword, hne, (List.mem_singleton.1 hnew).symm, hk.symm⟩
      · exact h.origin k stored hstored

/-- Taking a word out leaves the others filed. -/
theorem remove (h : Filed v added) (word : String) : Filed (v.remove word).1 added := by
  -- nothing changes, or the word goes out of its bin
  rcases remove_cases v word with ⟨hsame, _⟩ | hremove
  · rw [hsame]
    exact h
  · have hindex := binIndex_congr (length_bins_modifyBin v word (·.erase (Text.lower word)))
    rw [hremove]
    constructor
    · intro k
      rw [binAt_modifyBin]
      split
      · exact (h.nodup k).erase _
      · exact h.nodup k
    · intro k stored hstored
      simp only [hindex]
      rw [binAt_modifyBin] at hstored
      split at hstored
      · exact h.origin k stored (List.mem_of_mem_erase hstored)
      · exact h.origin k stored hstored

/-- Several added words are filed. -/
theorem addAll (h : Filed v added) {words : List String} (hwords : ∀ word ∈ words, word ∈ added) :
    Filed (v.addAll words).1 added := by
  rw [addAll_fst]
  induction words generalizing v with
  | nil => exact h
  | cons word words ih =>
    exact ih (h.add (hwords word (List.mem_cons_self ..)))
      fun other hother => hwords other (List.mem_cons_of_mem _ hother)

theorem clear (v : Vocabulary) (added : List String) : Filed v.clear added := by
  apply of_words_eq_nil
  simp [words, Vocabulary.clear]

/-- A change keeps the words filed. Clearing and harvesting start with no words at all, so what was
added before does not matter to them. -/
theorem run (h : Filed v added) (update : Update) : Filed (update.run v) (added ++ update.words) := by
  cases update with
  | add word =>
    exact (h.mono fun _ => List.mem_append_left _).add
      (List.mem_append_right _ (List.mem_singleton.2 rfl))
  | remove word => exact (h.mono fun _ => List.mem_append_left _).remove word
  | clear => exact clear v _
  | harvest g => exact (clear v _).addAll fun _ => List.mem_append_right _

/-- Changes one after the other keep the words filed. The induction is along the changes, with the
words that were added so far. -/
theorem updated (h : Filed v added) (updates : List Update) :
    Filed (v.updated updates) (added ++ updates.flatMap Update.words) := by
  induction updates generalizing v added with
  | nil => exact h.mono fun _ => List.mem_append_left _
  | cons update updates ih =>
    rw [List.flatMap_cons, ← List.append_assoc]
    exact ih (h.run update)

/-! ### Words that keep their bin -/

/-- A stored word whose spellings keep their bin is nowhere but in its own bin. It comes from an
added spelling in the same bin, which has the bin of its small form. -/
theorem eq_binIndex (h : Filed v added) (hstored : stored ∈ v.binAt k)
    (hkeeps : ∀ word ∈ added, Text.lower word = stored → v.KeepsBin word) :
    k = v.binIndex stored := by
  obtain ⟨word, hword, -, hlower, hbin⟩ := h.origin k stored hstored
  rw [← hlower, hkeeps word hword hlower, hbin]

end Filed

/-- What stands in one list only, and there once, stands once in all of them. The induction goes to
the list that it stands in; the lists before that one do not have it. -/
theorem count_flatten_eq_one {bins : List (List String)} (hmem : stored ∈ bins.getD k [])
    (hnodup : (bins.getD k []).Nodup) (honly : ∀ j, stored ∈ bins.getD j [] → j = k) :
    bins.flatten.count stored = 1 := by
  induction bins generalizing k with
  | nil => cases hmem
  | cons bin bins ih =>
    rw [List.flatten_cons, List.count_append]
    cases k with
    | zero =>
      -- any other list with it would have another number
      have hrest : stored ∉ bins.flatten := by
        intro hin
        obtain ⟨other, hother, hstored⟩ := List.mem_flatten.1 hin
        obtain ⟨j, hj, rfl⟩ := List.mem_iff_getElem.1 hother
        have := honly (j + 1) (by simpa [List.getD_eq_getElem?_getD, hj] using hstored)
        omega
      have hhere : stored ∈ bin := hmem
      have honce : bin.Nodup := hnodup
      rw [List.count_eq_zero.2 hrest, honce.count, if_pos hhere]
    | succ k =>
      have hfirst : stored ∉ bin := fun hin => absurd (honly 0 hin) (Nat.succ_ne_zero k).symm
      rw [List.count_eq_zero.2 hfirst, ih hmem hnodup fun j hj => Nat.succ.inj (honly (j + 1) hj)]

/-- A new vocabulary has no words. -/
theorem words_eq_nil_of_ofBins {n : Int} {substitute : Bool} (h : ofBins n substitute = .ok v) :
    v.words = [] := by
  unfold ofBins at h
  split at h
  · cases h
  · cases h
    exact List.flatten_replicate_nil

/-- The word list after any changes of an empty one: its words are in lower case, and each of them whose
added spellings keep their bin is in the bin of its own length, there once in all bins, and known. Spellings
of one word with the same bin are known together. Only a spelling with the capital that becomes two
characters may not keep its bin. -/
theorem updated_words {n : Int} {substitute : Bool} (hempty : ofBins n substitute = .ok v)
    {updates : List Update} (hupdates : v.updated updates = u) :
    (∀ stored ∈ u.words, Text.lower stored = stored)
      ∧ (∀ stored ∈ u.words,
        (∀ word ∈ updates.flatMap Update.words, Text.lower word = stored → u.KeepsBin word) →
          stored ∈ u.bin stored.length ∧ u.words.count stored = 1 ∧ u.known stored = true)
      ∧ (∀ a b, Text.lower a = Text.lower b → u.binIndex a = u.binIndex b → u.known a = u.known b)
      ∧ ∀ word, 'İ' ∉ word.toList → u.KeepsBin word := by
  have hfiled := (Filed.of_words_eq_nil (words_eq_nil_of_ofBins hempty) []).updated updates
  have hlowered := ((Built.empty hempty).updated updates).lowered
  rw [List.nil_append, hupdates] at hfiled
  rw [hupdates] at hlowered
  refine ⟨?_, ?_, fun a b => known_eq_of_lower_eq, fun word hword =>
    keepsBin_of_length (Text.length_lower hword)⟩
  · intro stored hstored
    obtain ⟨k, hk⟩ := mem_words_iff.1 hstored
    exact hlowered k stored hk
  · intro stored hstored hkeeps
    obtain ⟨k, hk⟩ := mem_words_iff.1 hstored
    obtain ⟨word, -, hne, hlower, -⟩ := hfiled.origin k stored hk
    have hbin := hfiled.eq_binIndex hk hkeeps
    -- the bin it was found in is the bin of its own length
    refine ⟨?_, ?_, ?_⟩
    · rw [bin_length, ← hbin]
      exact hk
    · apply count_flatten_eq_one (k := k) hk (hfiled.nodup k)
      intro j hj
      rw [hbin]
      exact hfiled.eq_binIndex hj hkeeps
    · rw [known_iff, hlowered k stored hk, ← hbin, ← hlower]
      exact ⟨mt Text.lower_eq_empty_iff.1 hne, .inr (hlower ▸ hk)⟩

/-- Two spellings of one word, and another word that is taken out again, leave one word. -/
theorem updated_words_dog : ∃ v u, ofBins 12 false = .ok v
    ∧ v.updated [.add "Dog", .add "cat", .add "DOG", .remove "Cat"] = u
    ∧ "dog" ∈ u.bin 3 ∧ u.words.count "dog" = 1 ∧ u.known "dog" = true ∧ u.known "dOg" = true := by
  refine ⟨_, _, rfl, rfl, ?_⟩
  obtain ⟨-, hword, hspellings, hkeeps⟩ :=
    @updated_words _ _ 12 false rfl [.add "Dog", .add "cat", .add "DOG", .remove "Cat"] rfl
  have hplain : ∀ word ∈ ["Dog", "cat", "DOG"], 'İ' ∉ word.toList := by decide
  obtain ⟨hmem, hcount, hknown⟩ :=
    hword "dog" (by decide +kernel) fun word hword _ => hkeeps word (hplain word hword)
  refine ⟨hmem, hcount, hknown, ?_⟩
  rw [← hknown]
  exact hspellings "dOg" "dog" (by decide +kernel) (by decide +kernel)

/-- A spelling that lower case makes longer: the word is stored, but not in the bin of its length, and
not known as it is stored; added in lower case it is stored twice. -/
theorem updated_words_dotted : ∃ v u, ofBins 12 false = .ok v ∧ v.updated [.add "İ"] = u
    ∧ "i\u0307" ∈ u.words ∧ "i\u0307" ∉ u.bin "i\u0307".length
    ∧ Text.lower "İ" = Text.lower "i\u0307" ∧ u.known "İ" = true ∧ u.known "i\u0307" = false
    ∧ (u.updated [.add "i\u0307"]).words.count "i\u0307" = 2 := by
  refine ⟨_, _, rfl, rfl, ?_⟩
  decide +kernel

end Utterance.Vocabulary
