import Utterance.Token

/-!
# What tokens are made of

A word or a punctuation mark is read from a source character by character, and spacing ends it. So the
tokens of a sentence are not empty and hold no spacing, wherever it was read from.
-/

namespace Utterance

namespace Token

variable {σ : Type} [Reader σ]

/-- A text without spacing that is not empty. -/
def Solid (text : String) : Prop :=
  text.toList ≠ [] ∧ ∀ c ∈ text.toList, isSpacing c = false

theorem solid_singleton {c : Char} (hc : isSpacing c = false) : Solid (String.singleton c) := by
  simp [Solid, hc]

/-- Characters without spacing make a solid text, in the reverse order too. -/
theorem solid_ofList_reverse {run : List Char} (hne : run ≠ [])
    (hrun : ∀ c ∈ run, isSpacing c = false) : Solid (String.ofList run.reverse) := by
  refine ⟨by simpa using hne, fun c hc => hrun c ?_⟩
  simpa using hc

/-- A token is made of the characters that were read before and of those that follow up to a
spacing. The induction is along the run, with the characters that have been read so far. -/
theorem solid_readRun (run : List Char) (s : σ) (hrun : ∀ c ∈ run, isSpacing c = false)
    (hstart : run ≠ [] ∨ ∃ c cs, Reader.left s = c :: cs ∧ isSpacing c = false) :
    Solid (readRun run s).1.text := by
  fun_induction readRun run s with
  -- the source ends
  | case1 run s s' h =>
    -- nothing is left, so something was read before
    rcases hstart with hne | ⟨c, cs, hleft, _⟩
    · exact solid_ofList_reverse hne hrun
    · rw [(Reader.read_none s s' h).1] at hleft
      cases hleft
  -- a spacing
  | case2 run s c s' h hc =>
    rcases hstart with hne | ⟨d, cs, hleft, hd⟩
    · exact solid_ofList_reverse hne hrun
    · rw [Reader.left_read s c s' h] at hleft
      cases hleft
      rw [hc] at hd
      cases hd
  -- a minus sign behind a digit
  | case3 run s c s' h _ hminus =>
    apply solid_ofList_reverse _ hrun
    rintro rfl
    simp at hminus
  -- a dollar sign in front
  | case4 run s c s' h _ _ _ =>
    have hdollar : "$" = String.singleton '$' := by decide
    show Solid "$"
    rw [hdollar]
    exact solid_singleton (by decide)
  -- the first of two points
  | case5 run s c s' h hc _ _ seen _ _ _ ih =>
    apply ih
    · simpa using hc
    · exact .inl (List.cons_ne_nil _ _)
  -- a mark of its own
  | case6 run s c s' h hc _ _ seen _ _ _ => exact solid_singleton (by simpa using hc)
  -- a mark ends the run and is put back
  | case7 run s c s' h _ _ _ seen _ hne =>
    exact solid_ofList_reverse (by simpa using hne) hrun
  -- the run goes on
  | case8 run s c s' h hc _ _ seen _ ih =>
    apply ih
    · intro d hd
      rcases List.mem_cons.1 hd with rfl | hd
      · simpa using hc
      · exact hrun d hd
    · exact .inl (List.cons_ne_nil _ _)

/-! ## The texts of tokens -/

section Texts

variable {P : String → Prop} {skip minus : Bool} {s : σ} {t : Token}
  (hsingle : ∀ c, isSpacing c = false → P (String.singleton c))
  (hrun : ∀ (s : σ) (c : Char) (cs : List Char), Reader.left s = c :: cs → isSpacing c = false →
    P (readRun [] s).1.text)

include hsingle hrun

/-- The text of a token that is no paragraph break is a single character or has been read on with.
So a property of texts holds of every token if it holds of these two kinds. -/
theorem text_next? (h : (next? minus s).1 = some t) (hkind : t.kind ≠ .paragraph) : P t.text := by
  have hin := exists_left_skipSpacing 0 s
  unfold next? at h
  generalize skipSpacing 0 s = gap at hin h
  obtain ⟨gap, s'⟩ := gap
  cases gap with
  | atEnd => cases h
  | blankLine =>
    cases h
    exact absurd rfl hkind
  | inLine =>
    obtain ⟨c, cs, hleft, hc⟩ := hin rfl
    simp only at h
    rw [← Reader.left_peek] at hleft
    split at h
    -- a minus sign by itself
    · split at h
      · rename_i d s'' hread
        cases h
        rw [Reader.left_read _ d s'' hread] at hleft
        cases hleft
        exact hsingle c hc
      · cases h
    · cases h
      exact hrun _ c cs hleft hc

/-- The same of a token that is kept. -/
theorem text_nextKept? (h : (nextKept? skip minus s).1 = some t) (hkind : t.kind ≠ .paragraph) :
    P t.text := by
  fun_induction nextKept? skip minus s with
  | case1 => cases h
  | case2 minus s t' minus' s' hnext _ ih => exact ih h
  | case3 minus s t' minus' s' hnext _ =>
    cases h
    exact text_next? hsingle hrun (by rw [hnext]) hkind

/-- The same of all tokens of a sentence, none of which is a paragraph break. -/
theorem text_of_mem_readSentence (h : t ∈ (readSentence skip minus s).1) : P t.text := by
  fun_induction readSentence skip minus s with
  | case1 => cases h
  | case2 => cases h
  | case3 minus s t' minus' s' hnext hkind _ _ _ hrest ih =>
    rw [hrest] at ih
    rcases List.mem_cons.1 h with rfl | h
    · exact text_nextKept? hsingle hrun (by rw [hnext]) hkind
    · exact ih h

end Texts

theorem solid_readRun_nil (s : σ) (c : Char) (cs : List Char) (hleft : Reader.left s = c :: cs)
    (hc : isSpacing c = false) : Solid (readRun [] s).1.text :=
  solid_readRun [] s (by simp) (.inr ⟨c, cs, hleft, hc⟩)

theorem solid_next? {minus : Bool} {s : σ} {t : Token} (h : (next? minus s).1 = some t)
    (hkind : t.kind ≠ .paragraph) : Solid t.text :=
  text_next? (fun _ => solid_singleton) solid_readRun_nil h hkind

/-- The tokens of a sentence are texts without spacing. -/
theorem solid_of_mem_readSentence {skip minus : Bool} {s : σ} {t : Token}
    (h : t ∈ (readSentence skip minus s).1) : Solid t.text :=
  text_of_mem_readSentence (fun _ => solid_singleton) solid_readRun_nil h

end Token

/-- A sentence is cut into texts without spacing. -/
theorem solid_of_mem_tokenize {skip : Bool} {text word : String} (h : word ∈ tokenize skip text) :
    Token.Solid word := by
  obtain ⟨t, ht, rfl⟩ := List.mem_map.1 h
  exact Token.solid_of_mem_readSentence ht

end Utterance
