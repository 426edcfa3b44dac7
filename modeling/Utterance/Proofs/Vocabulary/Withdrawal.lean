import Utterance.Proofs.Vocabulary.Bins

/-!
# Words that are taken back

Words that were all new when they were added can be taken out again in any order. Each of them is then in
its bin, at a place of its own: two words that are stored alike in one bin cannot both be new. So a removal
finds the word that it is asked for and no other one, and in the end every bin is as it was.
-/

namespace Utterance.Vocabulary

variable {v u : Vocabulary} {word other : String} {words order : List String}

/-! ## Word after word -/

/-- Applies a change to words one after the other. The results are its answers for them. -/
def each (change : Vocabulary → String → Vocabulary × Bool) (v : Vocabulary) :
    List String → Vocabulary × List Bool
  | [] => (v, [])
  | word :: words =>
    let (v, answer) := change v word
    let (v, answers) := each change v words
    (v, answer :: answers)

variable {change : Vocabulary → String → Vocabulary × Bool}

/-- The vocabulary after changes of single words is reached by them one after the other. -/
theorem each_fst (v : Vocabulary) (words : List String) :
    (each change v words).1 = words.foldl (fun v word => (change v word).1) v := by
  induction words generalizing v with
  | nil => rfl
  | cons word words ih => exact ih (change v word).1

/-- A vocabulary is told by its bins and by what it is without words. -/
theorem eq_of_clear_eq (hbins : u.bins = v.bins) (hclear : u.clear = v.clear) : u = v := by
  cases u
  cases v
  simp only [clear, mk.injEq] at hbins hclear ⊢
  exact ⟨hbins, hclear.2⟩

/-- A vocabulary with one word less is cleared to the same one. -/
theorem clear_remove (v : Vocabulary) (word : String) : (v.remove word).1.clear = v.clear := by
  rcases remove_cases v word with ⟨hsame, _⟩ | hremove
  · rw [hsame]
  · rw [hremove, clear_modifyBin]

/-- If no change of a word touches anything but words, neither do many. -/
theorem clear_each (h : ∀ v word, (change v word).1.clear = v.clear) (v : Vocabulary)
    (words : List String) : (each change v words).1.clear = v.clear := by
  induction words generalizing v with
  | nil => rfl
  | cons word words ih => exact (ih (change v word).1).trans (h v word)

/-! ## Places of words -/

/-- Two words that are stored alike in one bin. -/
def Alike (v : Vocabulary) (a b : String) : Prop :=
  v.binIndex a = v.binIndex b ∧ Text.lower a = Text.lower b

theorem Alike.symm {a b : String} (h : v.Alike a b) : v.Alike b a := ⟨h.1.symm, h.2.symm⟩

theorem alike_congr (h : u.bins.length = v.bins.length) {a b : String} : u.Alike a b ↔ v.Alike a b := by
  rw [Alike, Alike, binIndex_congr h, binIndex_congr h]

/-- Whether a word is stored in its bin. -/
def Holds (v : Vocabulary) (word : String) : Prop := Text.lower word ∈ v.binAt (v.binIndex word)

/-- A word is new exactly if it is neither empty nor the wildcard nor known. -/
theorem add_snd_iff : (v.add word).2 = true ↔ word ≠ "" ∧ word ≠ Step.wildcard ∧ v.known word = false := by
  unfold add
  split
  · rename_i hskip
    simp only [Bool.or_eq_true, String.isEmpty_iff, beq_iff_eq] at hskip
    constructor
    · exact nofun
    · rintro ⟨hne, hwild, hunknown⟩
      rw [hunknown] at hskip
      exact absurd hskip (by simp [hne, hwild])
  · rename_i hnew
    simp only [Bool.or_eq_true, String.isEmpty_iff, beq_iff_eq, not_or, Bool.not_eq_true] at hnew
    exact ⟨fun _ => ⟨hnew.1.1, hnew.1.2, hnew.2⟩, fun _ => rfl⟩

/-- A word is removed exactly if it is not empty and is in its bin. -/
theorem remove_snd_iff : (v.remove word).2 = true ↔ word ≠ "" ∧ v.Holds word := by
  simp only [remove, Holds, bin_length]
  by_cases hempty : word = ""
  · simp [hempty]
  · by_cases hmem : Text.lower word ∈ v.binAt (v.binIndex word) <;> simp [hempty, hmem]

theorem Holds.known (h : v.Holds word) (hne : word ≠ "") : v.known word = true :=
  known_iff.2 ⟨hne, .inr h⟩

/-- A stored word stays stored while words are added. -/
theorem Holds.grown (h : v.Holds word) (hgrown : Grown v words u) : u.Holds word := by
  obtain ⟨new, hnew, _⟩ := hgrown.grown (v.binIndex word)
  rw [Holds, binIndex_congr hgrown.count, hnew]
  exact List.mem_append_left _ h

/-- A new word is in its bin from then on. -/
theorem holds_add (h : (v.add word).2 = true) : (v.add word).1.Holds word := by
  rcases add_cases v word with ⟨_, hskip⟩ | ⟨hadd, _, _⟩
  · obtain ⟨hne, hwild, hunknown⟩ := add_snd_iff.1 h
    rw [hunknown] at hskip
    exact absurd hskip (by simp [hne, hwild])
  · rw [Holds, hadd, binIndex_congr (length_bins_modifyBin ..), binAt_modifyBin, if_pos rfl]
    simp

/-- A removal leaves the words that are not stored like the one that goes. -/
theorem Holds.remove (h : v.Holds other) (halike : ¬v.Alike word other) :
    (v.remove word).1.Holds other := by
  rcases remove_cases v word with ⟨hsame, _⟩ | hremove
  · rw [hsame]
    exact h
  · rw [Holds, hremove, binIndex_congr (length_bins_modifyBin ..), binAt_modifyBin]
    split
    · rename_i hbin
      -- the two words share a bin, so they must differ in lower case
      apply (List.mem_erase_of_ne ?_).2 h
      exact fun hlower => halike ⟨hbin.symm, hlower.symm⟩
    · exact h

/-- Taking a word out leaves the number of bins. -/
theorem length_bins_remove (v : Vocabulary) (word : String) :
    (v.remove word).1.bins.length = v.bins.length := by
  rcases remove_cases v word with ⟨hsame, _⟩ | hremove
  · rw [hsame]
  · rw [hremove, length_bins_modifyBin]

/-! ## There and back -/

/-- What is true of words that were added to one vocabulary one after the other and were all new: they were
not known to it, no two of them are stored alike, and all of them are in their bins. -/
structure Added (v : Vocabulary) (words : List String) (u : Vocabulary) : Prop where
  grown : Grown v words u
  fresh : ∀ word ∈ words, word ≠ "" ∧ v.known word = false
  apart : words.Pairwise fun a b => ¬v.Alike a b
  holds : ∀ word ∈ words, u.Holds word

/-- The order in which words were added does not matter to what they leave. -/
theorem Added.perm (h : Added v words u) (horder : order.Perm words) : Added v order u where
  grown := h.grown.mono fun _ => horder.mem_iff.2
  fresh word hword := h.fresh word (horder.mem_iff.1 hword)
  apart := (horder.pairwise_iff fun halike hsymm => halike hsymm.symm).2 h.apart
  holds word hword := h.holds word (horder.mem_iff.1 hword)

/-- Adding words one after the other, all of them new, leaves them all in their bins. The induction
takes the first word off: the others are new even after it, so they are new before it and not stored
like it. -/
theorem added_each_add (h : ∀ answer ∈ (each add v words).2, answer = true) :
    Added v words (each add v words).1 := by
  induction words generalizing v with
  | nil => exact ⟨grown_refl v [], nofun, .nil, nofun⟩
  | cons word words ih =>
    have hnew : (v.add word).2 = true := h _ (List.mem_cons_self ..)
    have hrest : Added (v.add word).1 words (each add (v.add word).1 words).1 :=
      ih fun answer hanswer => h answer (List.mem_cons_of_mem _ hanswer)
    have hfirst : Grown v [word] (v.add word).1 := (grown_refl v _).add (List.mem_singleton.2 rfl)
    obtain ⟨hne, -, hunknown⟩ := add_snd_iff.1 hnew
    -- the other words are new even after this one
    have hfresh : ∀ other ∈ words, v.known other = false ∧ ¬v.Alike word other := by
      intro other hother
      obtain ⟨hne', hunknown'⟩ := hrest.fresh other hother
      constructor
      · rw [Bool.eq_false_iff] at hunknown' ⊢
        exact fun hknown => hunknown' (hfirst.known hknown)
      · intro halike
        obtain ⟨hbin, hlower⟩ := (alike_congr hfirst.count).2 halike
        have hholds := holds_add hnew
        rw [Holds, hbin, hlower] at hholds
        rw [Holds.known hholds hne'] at hunknown'
        cases hunknown'
    constructor
    · show Grown v (word :: words) (each add (v.add word).1 words).1
      rw [each_fst]
      exact grown_foldl_add (hfirst.mono (by simp)) fun _ => List.mem_cons_of_mem _
    · rw [List.forall_mem_cons]
      exact ⟨⟨hne, hunknown⟩, fun other hother =>
        ⟨(hrest.fresh other hother).1, (hfresh other hother).1⟩⟩
    · rw [List.pairwise_cons]
      refine ⟨fun other hother => (hfresh other hother).2, hrest.apart.imp ?_⟩
      exact fun hapart halike => hapart ((alike_congr hfirst.count).2 halike)
    · rw [List.forall_mem_cons]
      exact ⟨(holds_add hnew).grown hrest.grown, hrest.holds⟩

/-- Words that are in their bins, no two of them stored alike, are all removed, since a removal
leaves the words that are stored in another way. -/
theorem snd_each_remove (hne : ∀ word ∈ words, word ≠ "") (hholds : ∀ word ∈ words, v.Holds word)
    (hapart : words.Pairwise fun a b => ¬v.Alike a b) :
    (each remove v words).2 = List.replicate words.length true := by
  induction words generalizing v with
  | nil => rfl
  | cons word words ih =>
    rw [List.forall_mem_cons] at hne hholds
    rw [List.pairwise_cons] at hapart
    have hfirst : (v.remove word).2 = true := remove_snd_iff.2 ⟨hne.1, hholds.1⟩
    have hrest : (each remove (v.remove word).1 words).2 = List.replicate words.length true := by
      apply ih hne.2
      · exact fun other hother => (hholds.2 other hother).remove (hapart.1 other hother)
      · apply hapart.2.imp
        exact fun hapart halike => hapart ((alike_congr (length_bins_remove v word)).1 halike)
    show (v.remove word).2 :: (each remove (v.remove word).1 words).2 = _
    rw [hfirst, hrest]
    rfl

/-- Words that were added one after the other and were all new can be removed in any order: every removal
finds its word, and the vocabulary is as it was, with the old words of every bin in their order. -/
theorem each_remove_each_add (h : ∀ answer ∈ (each add v words).2, answer = true)
    (horder : order.Perm words) :
    each remove (each add v words).1 order = (v, List.replicate order.length true) := by
  have hadded := (added_each_add h).perm horder
  apply Prod.ext
  · apply eq_of_clear_eq
    · rw [each_fst]
      exact bins_foldl_remove hadded.grown hadded.fresh
    · rw [clear_each clear_remove, clear_each clear_add]
  · apply snd_each_remove (fun word hword => (hadded.fresh word hword).1) hadded.holds
    apply hadded.apart.imp
    exact fun hapart halike => hapart ((alike_congr hadded.grown.count).1 halike)

/-- Words of one bin, taken out in another order than they came in. -/
theorem each_remove_each_add_lemonade :
    let v : Vocabulary := { bins := [["i"], ["extraordinary"]], two_le_bins := by decide }
    let words := ["Lemonade", "a", "is"]
    let order := ["is", "a", "Lemonade"]
    (∀ answer ∈ (each add v words).2, answer = true) ∧ order.Perm words
      ∧ (each add v words).1.bins = [["i", "a"], ["extraordinary", "lemonade", "is"]]
      ∧ each remove (each add v words).1 order = (v, [true, true, true]) := by
  intro v words order
  have hnew : ∀ answer ∈ (each add v words).2, answer = true := by decide +kernel
  have horder : order.Perm words := by decide
  exact ⟨hnew, horder, by decide +kernel, each_remove_each_add hnew horder⟩

end Utterance.Vocabulary
