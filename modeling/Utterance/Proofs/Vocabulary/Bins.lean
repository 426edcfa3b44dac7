import Utterance.Vocabulary

/-!
# Words that come and go

A word is put at the end of one bin, and only if it is not there yet. So words that were not known
can be taken out again: what was in the bins before them has not moved. And no word is forgotten
because another one is added.
-/

namespace Utterance.Vocabulary

variable {v u : Vocabulary} {word : String} {words : List String}

/-! ## Bins -/

/-- Number of the bin that a word belongs to. -/
def binIndex (v : Vocabulary) (word : String) : Nat := (v.binOf word.length).toNat

/-- The words in the bin with a number. -/
def binAt (v : Vocabulary) (k : Nat) : List String := v.bins.getD k []

theorem bin_length (v : Vocabulary) (word : String) : v.bin word.length = v.binAt (v.binIndex word) :=
  rfl

theorem binIndex_congr (h : u.bins.length = v.bins.length) (word : String) :
    u.binIndex word = v.binIndex word := by
  simp only [binIndex, binOf, binCount, h]

/-- Every word has a bin. -/
theorem binIndex_lt (v : Vocabulary) (word : String) : v.binIndex word < v.bins.length := by
  have := v.two_le_bins
  simp only [binIndex, binOf, binCount]
  omega

/-- A word is known if it is a number, or if its small form is in its bin. -/
theorem known_iff :
    v.known word = true
      ↔ word ≠ "" ∧ (Text.isNumber word = true ∨ Text.lower word ∈ v.binAt (v.binIndex word)) := by
  simp only [known, lookup, bin_length]
  by_cases hempty : word = ""
  · simp [hempty]
  · by_cases hmem : Text.lower word ∈ v.binAt (v.binIndex word) <;> simp [hempty, hmem]

/-- A word that is not known is not in its bin. -/
theorem not_mem_of_known_eq_false (hne : word ≠ "") (h : v.known word = false) :
    Text.lower word ∉ v.binAt (v.binIndex word) := by
  intro hmem
  rw [known_iff.2 ⟨hne, .inr hmem⟩] at h
  cases h

/-- Vocabularies with the same bins know the same words. -/
theorem known_congr (h : u.bins = v.bins) (word : String) : u.known word = v.known word := by
  rw [Bool.eq_iff_iff, known_iff, known_iff, binIndex_congr (congrArg List.length h), binAt,
    binAt, h]

theorem length_bins_modifyBin (v : Vocabulary) (word : String) (f : List String → List String) :
    (v.modifyBin word.length f).bins.length = v.bins.length := by
  simp [modifyBin]

/-- Changing the bin of a word leaves all other bins. -/
theorem binAt_modifyBin (v : Vocabulary) (word : String) (f : List String → List String) (k : Nat) :
    (v.modifyBin word.length f).binAt k
      = if k = v.binIndex word then f (v.binAt k) else v.binAt k := by
  have hlt := v.binIndex_lt word
  have hbins : (v.modifyBin word.length f).bins = v.bins.modify (v.binIndex word) f := rfl
  simp only [binAt, hbins, List.getD_eq_getElem?_getD, List.getElem?_modify]
  by_cases hk : k = v.binIndex word
  · subst hk
    simp [hlt]
  · simp [hk, Ne.symm hk]

/-- A vocabulary whose bin was changed is cleared to the same one. -/
theorem clear_modifyBin (v : Vocabulary) (length : Nat) (f : List String → List String) :
    (v.modifyBin length f).clear = v.clear := by
  have hbins : (v.bins.modify (v.binOf length).toNat f).map (fun _ => ([] : List String))
      = v.bins.map fun _ => [] := by
    simp [List.map_const']
  simp only [clear, modifyBin, hbins]

/-! ## One word -/

/-- Adding a word changes nothing, if there is no word, or it is a wildcard or known. Otherwise it
puts the small form of the word at the end of its bin. -/
theorem add_cases (v : Vocabulary) (word : String) :
    ((v.add word).1 = v ∧ (word = "" ∨ word = Step.wildcard ∨ v.known word = true))
      ∨ ((v.add word).1 = v.modifyBin word.length (· ++ [Text.lower word])
        ∧ word ≠ "" ∧ v.known word = false) := by
  unfold add
  split
  · rename_i hskip
    simp only [Bool.or_eq_true, String.isEmpty_iff, beq_iff_eq] at hskip
    exact .inl ⟨rfl, or_assoc.1 hskip⟩
  · rename_i hnew
    simp only [Bool.or_eq_true, String.isEmpty_iff, beq_iff_eq, not_or, Bool.not_eq_true] at hnew
    exact .inr ⟨rfl, hnew.1.1, hnew.2⟩

/-- Removing a word changes nothing if it is not there, or takes the first one like it out of its
bin. -/
theorem remove_cases (v : Vocabulary) (word : String) :
    ((v.remove word).1 = v ∧ (word = "" ∨ Text.lower word ∉ v.binAt (v.binIndex word)))
      ∨ (v.remove word).1 = v.modifyBin word.length (·.erase (Text.lower word)) := by
  unfold remove
  simp only
  split
  · rename_i hskip
    simp only [Bool.or_eq_true, String.isEmpty_iff, Bool.not_eq_true', List.contains_eq_mem,
      decide_eq_false_iff_not, bin_length] at hskip
    exact .inl ⟨rfl, hskip⟩
  · exact .inr rfl

/-- A vocabulary with one more word is cleared to the same one. -/
theorem clear_add (v : Vocabulary) (word : String) : (v.add word).1.clear = v.clear := by
  rcases add_cases v word with ⟨hsame, _⟩ | ⟨hadd, _, _⟩
  · rw [hsame]
  · rw [hadd, clear_modifyBin]

/-- A word that was added is known, unless it is none. -/
theorem known_add (hne : word ≠ "") (hwild : word ≠ Step.wildcard) : (v.add word).1.known word = true := by
  rcases add_cases v word with ⟨hsame, hskip⟩ | ⟨hadd, _, _⟩
  · rw [hsame]
    exact (hskip.resolve_left hne).resolve_left hwild
  · have hcount : (v.add word).1.bins.length = v.bins.length := by
      rw [hadd, length_bins_modifyBin]
    rw [known_iff, binIndex_congr hcount, hadd, binAt_modifyBin, if_pos rfl]
    exact ⟨hne, .inr (by simp)⟩

/-- What is left known when a word is removed: all that differs from it in more than case. Only the
small form of the removed word leaves a bin. -/
theorem known_remove {other : String} (h : v.known other = true)
    (hother : Text.lower other ≠ Text.lower word) : (v.remove word).1.known other = true := by
  rcases remove_cases v word with ⟨hsame, _⟩ | hremove
  · rw [hsame]
    exact h
  · have hcount : (v.remove word).1.bins.length = v.bins.length := by
      rw [hremove, length_bins_modifyBin]
    rw [known_iff] at h ⊢
    rw [binIndex_congr hcount, hremove, binAt_modifyBin]
    refine ⟨h.1, h.2.imp_right fun hmem => ?_⟩
    split
    · exact (List.mem_erase_of_ne hother).2 hmem
    · exact hmem

/-! ## Word after word -/

/-- A vocabulary after some of the given words were added: each bin has them at its end, in small
letters and each once. It says nothing of which of them were added, so that it also holds between
additions and removals. -/
structure Grown (v : Vocabulary) (words : List String) (u : Vocabulary) : Prop where
  count : u.bins.length = v.bins.length
  grown : ∀ k, ∃ new, u.binAt k = v.binAt k ++ new ∧ new.Nodup
    ∧ ∀ stored ∈ new, ∃ word ∈ words, v.binIndex word = k ∧ Text.lower word = stored

theorem grown_refl (v : Vocabulary) (words : List String) : Grown v words v where
  count := rfl
  grown k := ⟨[], (List.append_nil _).symm, List.nodup_nil, by simp⟩

/-- Only the bins matter to what was added. -/
theorem Grown.congr {v' u' : Vocabulary} (h : Grown v words u) (hv : v'.bins = v.bins)
    (hu : u'.bins = u.bins) : Grown v' words u' where
  count := by rw [hv, hu, h.count]
  grown k := by
    obtain ⟨new, hnew, hnodup, hfrom⟩ := h.grown k
    refine ⟨new, by rw [binAt, binAt, hv, hu]; exact hnew, hnodup, fun stored hstored => ?_⟩
    obtain ⟨word, hword, hk, hlower⟩ := hfrom stored hstored
    exact ⟨word, hword, by rw [binIndex_congr (congrArg List.length hv), hk], hlower⟩

/-- More words may be given than were added, and in any order. -/
theorem Grown.mono (h : Grown v words u) {more : List String} (hmore : ∀ word ∈ words, word ∈ more) :
    Grown v more u where
  count := h.count
  grown k := by
    obtain ⟨new, hnew, hnodup, hfrom⟩ := h.grown k
    refine ⟨new, hnew, hnodup, fun stored hstored => ?_⟩
    obtain ⟨word, hword, hword'⟩ := hfrom stored hstored
    exact ⟨word, hmore word hword, hword'⟩

/-- One more word is at the end of its bin, if it was not there. It was not there if it was unknown,
so each new word of a bin still occurs once. -/
theorem Grown.add (h : Grown v words u) (hword : word ∈ words) : Grown v words (u.add word).1 := by
  rcases add_cases u word with ⟨hsame, _⟩ | ⟨hadd, hne, hunknown⟩
  · rw [hsame]
    exact h
  · rw [hadd]
    refine ⟨by rw [length_bins_modifyBin, h.count], fun k => ?_⟩
    obtain ⟨new, hnew, hnodup, hfrom⟩ := h.grown k
    rw [binAt_modifyBin]
    split
    · rename_i hk
      -- the bin of the word has neither an old nor a new one like it
      have hfresh := not_mem_of_known_eq_false hne hunknown
      rw [← hk, hnew, List.mem_append, not_or] at hfresh
      refine ⟨new ++ [Text.lower word], by rw [hnew, List.append_assoc], ?_, ?_⟩
      · rw [List.nodup_append]
        refine ⟨hnodup, List.pairwise_singleton _ _, fun a ha b hb => ?_⟩
        rw [List.mem_singleton.1 hb]
        exact fun heq => hfresh.2 (heq ▸ ha)
      · intro stored hstored
        rcases List.mem_append.1 hstored with hstored | hstored
        · exact hfrom stored hstored
        · refine ⟨word, hword, ?_, (List.mem_singleton.1 hstored).symm⟩
          rw [hk, binIndex_congr h.count]
    · exact ⟨new, hnew, hnodup, hfrom⟩

/-- Taking out a word that was not known before leaves the other new ones: the word is not among the
old words of its bin, so it is its new copy that goes. -/
theorem Grown.remove (h : Grown v (word :: words) u) (hne : word ≠ "")
    (hunknown : v.known word = false) : Grown v words (u.remove word).1 := by
  have hold := not_mem_of_known_eq_false hne hunknown
  -- a new word of the bin that is not like the removed one is like one of the others
  have hothers : ∀ {k : Nat} {stored : String}, (k = v.binIndex word → stored ≠ Text.lower word) →
      (∃ other ∈ word :: words, v.binIndex other = k ∧ Text.lower other = stored) →
      ∃ other ∈ words, v.binIndex other = k ∧ Text.lower other = stored := by
    rintro k stored hdiffers ⟨other, hother, hk, hlower⟩
    rcases List.mem_cons.1 hother with rfl | hother
    · exact absurd hlower.symm (hdiffers hk.symm)
    · exact ⟨other, hother, hk, hlower⟩
  rcases remove_cases u word with ⟨hsame, hskip⟩ | hremove
  · rw [hsame]
    refine ⟨h.count, fun k => ?_⟩
    obtain ⟨new, hnew, hnodup, hfrom⟩ := h.grown k
    refine ⟨new, hnew, hnodup, fun stored hstored => hothers ?_ (hfrom stored hstored)⟩
    rintro rfl rfl
    apply hskip.resolve_left hne
    rw [binIndex_congr h.count, hnew]
    exact List.mem_append_right _ hstored
  · rw [hremove]
    refine ⟨by rw [length_bins_modifyBin, h.count], fun k => ?_⟩
    obtain ⟨new, hnew, hnodup, hfrom⟩ := h.grown k
    rw [binAt_modifyBin, binIndex_congr h.count]
    split
    · rename_i hk
      subst hk
      -- the old words of the bin come first, and the removed one is not among them
      refine ⟨new.erase (Text.lower word), ?_, hnodup.erase _, fun stored hstored => ?_⟩
      · rw [hnew, List.erase_append_right _ hold]
      · obtain ⟨hdiffers, hstored⟩ := (List.Nodup.mem_erase_iff hnodup).1 hstored
        exact hothers (fun _ => hdiffers) (hfrom stored hstored)
    · rename_i hk
      exact ⟨new, hnew, hnodup, fun stored hstored =>
        hothers (fun heq => absurd heq hk) (hfrom stored hstored)⟩

/-- Without new words the bins are the same. -/
theorem Grown.bins_eq (h : Grown v [] u) : u.bins = v.bins := by
  apply List.ext_getElem h.count
  intro k hu hv
  obtain ⟨new, hnew, _, hfrom⟩ := h.grown k
  have hnil : new = [] := by
    apply List.eq_nil_iff_forall_not_mem.2
    intro stored hstored
    obtain ⟨other, hother, _⟩ := hfrom stored hstored
    cases hother
  simpa [binAt, hnil, List.getD_eq_getElem?_getD, hu, hv] using hnew

/-- What was known stays known, since bins only have words put at their ends. -/
theorem Grown.known (h : Grown v words u) (hknown : v.known word = true) : u.known word = true := by
  obtain ⟨new, hnew, _⟩ := h.grown (v.binIndex word)
  rw [known_iff] at hknown ⊢
  rw [binIndex_congr h.count, hnew]
  exact ⟨hknown.1, hknown.2.imp_right fun hmem => List.mem_append_left _ hmem⟩

/-- Adding a word makes nothing known but what is like it. -/
theorem known_of_known_add {other : String} (h : (v.add word).1.known other = true) :
    v.known other = true ∨ Text.lower other = Text.lower word := by
  have hgrown := (grown_refl v [word]).add (List.mem_singleton.2 rfl)
  obtain ⟨new, hnew, _, hfrom⟩ := hgrown.grown (v.binIndex other)
  rw [known_iff, binIndex_congr hgrown.count, hnew, List.mem_append] at h
  rw [known_iff]
  obtain ⟨hne, hnumber | hold | hadded⟩ := h
  · exact .inl ⟨hne, .inl hnumber⟩
  · exact .inl ⟨hne, .inr hold⟩
  · obtain ⟨added, hmem, _, hlower⟩ := hfrom _ hadded
    rw [List.mem_singleton.1 hmem] at hlower
    exact .inr hlower.symm

/-! ## Harvests -/

theorem addAll_fst (v : Vocabulary) (words : List String) :
    (v.addAll words).1 = words.foldl (fun v word => (v.add word).1) v :=
  (List.foldl_hom Prod.fst fun _ _ => rfl).symm

/-- A vocabulary with more words is cleared to the same one. -/
theorem clear_addAll (v : Vocabulary) (words : List String) : (v.addAll words).1.clear = v.clear := by
  rw [addAll_fst]
  induction words generalizing v with
  | nil => rfl
  | cons word words ih => rw [List.foldl_cons, ih, clear_add]

/-- Adding words one after the other puts them at the ends of their bins. -/
theorem grown_foldl_add (h : Grown v words u) {more : List String} (hmore : ∀ word ∈ more, word ∈ words) :
    Grown v words (more.foldl (fun v word => (v.add word).1) u) := by
  induction more generalizing u with
  | nil => exact h
  | cons word more ih =>
    apply ih (h.add (hmore word (List.mem_cons_self ..)))
    exact fun other hother => hmore other (List.mem_cons_of_mem _ hother)

/-- Every word that was added on the way is known in the end: it is known after its own addition,
and stays so. -/
theorem known_foldl_add (hword : word ∈ words) (hne : word ≠ "") (hwild : word ≠ Step.wildcard) :
    (words.foldl (fun v word => (v.add word).1) v).known word = true := by
  induction words generalizing v with
  | nil => cases hword
  | cons other words ih =>
    rcases List.mem_cons.1 hword with rfl | hword
    · -- it is known once it was added, and the words after it take nothing away
      exact (grown_foldl_add (grown_refl _ words) fun _ h => h).known (known_add hne hwild)
    · exact ih hword

/-- Words that were not known can be taken out again, and the bins are as they were before the words
were added. Each removal takes one of the new words out, until there is none. -/
theorem bins_foldl_remove (h : Grown v words u)
    (hnew : ∀ word ∈ words, word ≠ "" ∧ v.known word = false) :
    (words.foldl (fun v word => (v.remove word).1) u).bins = v.bins := by
  induction words generalizing u with
  | nil => exact h.bins_eq
  | cons word words ih =>
    obtain ⟨hne, hunknown⟩ := hnew word (List.mem_cons_self ..)
    exact ih (h.remove hne hunknown) fun other hother => hnew other (List.mem_cons_of_mem _ hother)

/-- The words of a grammar are known after its harvest, the wildcard apart. -/
theorem known_harvest {g : Grammar} (hword : word ∈ g.terminals) (hne : word ≠ "")
    (hwild : word ≠ Step.wildcard) : (v.harvest g).state.known word = true := by
  show (v.clear.addAll g.terminals).1.known word = true
  rw [addAll_fst]
  exact known_foldl_add hword hne hwild

end Utterance.Vocabulary
