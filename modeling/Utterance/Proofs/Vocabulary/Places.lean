import Utterance.Proofs.Vocabulary.Built
import Utterance.Proofs.Vocabulary.Window

/-!
# Guesses by place

What a window finds in a text can be told place by place. The guess for an unknown word depends on the two
places before it and the three after it: on the words there, in their stored form, and on their roles. A
place outside the text is empty, and an unknown word counts as a plain one for those after it if it was
guessed itself. The marked text is made of the gaps and words in their order, and the word to report is
the first of the longest unknown ones.
-/

namespace Utterance.Guess

variable {v : Vocabulary} {t : Tally} {s second first : Slot} {slots rest : List Slot}
  {segs : List Segment} {words : List String} {text : String} {i : Nat}

/-! ## Places -/

/-- What is at a place of a text with the given words; nothing outside. A word that was guessed is a plain
word. -/
def placeAt (v : Vocabulary) (words : List String) (guessed : Nat → Bool) (i : Int) : Slot :=
  match if i < 0 then none else words[i.toNat]? with
  | none => {}
  | some word =>
    { word := v.shown word, role := if guessed i.toNat then .plain else v.role word }

/-- The guess for the word at a place. -/
def guessAt (v : Vocabulary) (words : List String) (i : Nat) : Option Guess :=
  let guessed (j : Nat) : Bool := if _h : j < i then (guessAt v words j).isSome else false
  let place (d : Int) : Slot := placeAt v words guessed (i + d)
  Window.guess? ⟨place (-2), place (-1), place 0, place 1, place 2, place 3⟩
termination_by i

/-- What is at a place depends on what was guessed there, and not on other guesses. -/
theorem placeAt_congr {guessed guessed' : Nat → Bool} {i : Int}
    (h : 0 ≤ i → guessed i.toNat = guessed' i.toNat) :
    placeAt v words guessed i = placeAt v words guessed' i := by
  unfold placeAt
  split
  · rfl
  · rename_i word hword
    -- there is no word at a place in front of the text
    have hi : 0 ≤ i := by
      by_contra hneg
      rw [if_pos (by omega)] at hword
      cases hword
    rw [h hi]

/-- The place of a word as later words see it. -/
def leftAt (v : Vocabulary) (words : List String) (i : Int) : Slot :=
  placeAt v words (fun j => (guessAt v words j).isSome) i

/-- The place of a word that is still to be looked at. -/
def freshAt (v : Vocabulary) (words : List String) (i : Int) : Slot :=
  placeAt v words (fun _ => false) i

/-- A guess looks at the two places before its own as they were left behind, and at its own and the
three after it as they are met. -/
theorem guessAt_eq (v : Vocabulary) (words : List String) (i : Nat) :
    guessAt v words i = Window.guess?
      ⟨leftAt v words (i - 2), leftAt v words (i - 1), freshAt v words i,
        freshAt v words (i + 1), freshAt v words (i + 2), freshAt v words (i + 3)⟩ := by
  -- what lies before the place was guessed already, and what lies from it on was not
  have hleft : ∀ d : Int, d < 0 →
      placeAt v words (fun j => if _h : j < i then (guessAt v words j).isSome else false) (i + d)
        = leftAt v words (i + d) := by
    intro d hd
    apply placeAt_congr
    intro hi
    rw [dif_pos (by omega)]
  have hfresh : ∀ d : Int, 0 ≤ d →
      placeAt v words (fun j => if _h : j < i then (guessAt v words j).isSome else false) (i + d)
        = freshAt v words (i + d) := by
    intro d hd
    apply placeAt_congr
    intro hi
    rw [dif_neg (by omega)]
  rw [guessAt]
  simp only
  rw [hleft _ (by decide), hleft _ (by decide), hfresh _ (by decide), hfresh _ (by decide),
    hfresh _ (by decide), hfresh _ (by decide)]
  simp [Int.sub_eq_add_neg]

/-! ## Walks by place -/

/-- What a guess for another place sees of a slot. -/
def Slot.seen (s : Slot) : Slot := { word := s.word, role := s.role }

/-- A guess sees of each slot the word and its role. Gaps and the mark of an unknown word do not
matter. -/
theorem Window.guess?_eq_of_seen {w u : Window} (hhere : w.here.seen = u.here)
    (hsecond : w.second.seen = u.second) (hfirst : w.first.seen = u.first)
    (hnext : w.next.seen = u.next) (hafterNext : w.afterNext.seen = u.afterNext)
    (hlast : w.last.seen = u.last) : w.guess? = u.guess? := by
  have hseen : w.guess? = Window.guess? ⟨w.second.seen, w.first.seen, w.here.seen, w.next.seen,
      w.afterNext.seen, w.last.seen⟩ := rfl
  rw [hseen, hhere, hsecond, hfirst, hnext, hafterNext, hlast]

/-- What is at a place that does not lie before the text. -/
theorem placeAt_natCast (v : Vocabulary) (words : List String) (guessed : Nat → Bool) (i : Nat) :
    placeAt v words guessed i = match words[i]? with
      | none => {}
      | some word =>
        { word := v.shown word, role := if guessed i then .plain else v.role word } := by
  have hi : ¬((i : Int) < 0) := by omega
  simp [placeAt, hi]

/-- A word is left behind as it was met, or as a plain word if it was guessed. -/
theorem leftAt_natCast (v : Vocabulary) (words : List String) (i : Nat) :
    leftAt v words i = if (guessAt v words i).isSome then { freshAt v words i with role := .plain }
      else freshAt v words i := by
  rw [leftAt, freshAt, placeAt_natCast, placeAt_natCast]
  cases hword : words[i]? with
  | none =>
    have hguess : guessAt v words i = none := by
      rw [guessAt_eq, freshAt, placeAt_natCast, hword]
      rfl
    simp [hguess]
  | some word => cases hguess : (guessAt v words i).isSome <;> simp

/-- Walking along slots gives the guesses place by place. The induction is on the slots that are
left; it needs that they are seen as fresh places, and that the two slots behind are seen as the
places that were left. -/
theorem guesses_walk (hrest : ∀ k : Nat, (rest.getD k {}).seen = freshAt v words (i + k))
    (hsecond : second.seen = leftAt v words (i - 2)) (hfirst : first.seen = leftAt v words (i - 1)) :
    (t.walk second first rest).guesses
      = t.guesses ++ (List.range' i rest.length).filterMap (guessAt v words) := by
  induction rest generalizing t second first i with
  | nil => simp [Tally.walk]
  | cons here rest ih =>
    have hhere : here.seen = freshAt v words i := by simpa using hrest 0
    have hlater : ∀ k : Nat, (rest.getD k {}).seen = freshAt v words ((i + 1 : Nat) + k) := by
      intro k
      rw [show ((i + 1 : Nat) : Int) + k = i + ((k + 1 : Nat) : Int) by omega]
      exact hrest (k + 1)
    rw [Tally.walk]
    generalize hw : (⟨second, first, here, rest.getD 0 {}, rest.getD 1 {}, rest.getD 2 {}⟩ : Window) = w
    have hguess : w.guess? = guessAt v words i := by
      rw [guessAt_eq, ← hw]
      exact Window.guess?_eq_of_seen hhere hsecond hfirst (hrest 1) (hrest 2) (hrest 3)
    -- the slot that is left behind is the first one behind for the rest
    have hleft : w.settle.here.seen = leftAt v words i := by
      rw [leftAt_natCast, ← hguess, ← hhere, Window.settle, ← hw]
      split <;> rfl
    have hbehind : ((i + 1 : Nat) : Int) - 1 = i ∧ ((i + 1 : Nat) : Int) - 2 = i - 1 := by omega
    rw [ih hlater (by rw [hbehind.2]; exact hfirst) (by rw [hbehind.1]; exact hleft),
      List.length_cons, List.range'_succ]
    cases hfound : guessAt v words i <;> simp [Tally.take, hguess, hfound]

/-! ## The marked text -/

/-- The marked text of a walk is that of its slots one after the other. -/
theorem marked_walk (t : Tally) (second first : Slot) (slots : List Slot) :
    (t.walk second first slots).marked = t.marked ++ String.join (slots.map Slot.marked) := by
  induction slots generalizing t second first with
  | nil => simp [Tally.walk]
  | cons here rest ih =>
    rw [Tally.walk, ih]
    simp [Tally.take, String.append_assoc]

/-- A text with the first character that belongs to a word in upper case, if there is one. -/
def IsCapitalized (s t : String) : Prop :=
  (∃ before c after, s.toList = before ++ c :: after
      ∧ (∀ d ∈ before, Segment.isWordPart d = false) ∧ Segment.isWordPart c = true
      ∧ t.toList = before ++ Text.upperChar c ++ after)
    ∨ (∀ c ∈ s.toList, Segment.isWordPart c = false) ∧ t = s

/-- Capitalizing a list of characters changes the first one that belongs to a word, and nothing if
there is none. -/
theorem capitalize_cases (cs : List Char) :
    (∃ before c after, cs = before ++ c :: after
      ∧ (∀ d ∈ before, Segment.isWordPart d = false) ∧ Segment.isWordPart c = true
      ∧ capitalize cs = before ++ Text.upperChar c ++ after)
    ∨ (∀ c ∈ cs, Segment.isWordPart c = false) ∧ capitalize cs = cs := by
  induction cs with
  | nil => exact .inr ⟨by simp, rfl⟩
  | cons c cs ih =>
    cases hc : Segment.isWordPart c with
    | true => exact .inl ⟨[], c, cs, rfl, by simp, hc, by simp [capitalize, hc]⟩
    | false =>
      rcases ih with ⟨before, d, after, rfl, hbefore, hd, hcapital⟩ | ⟨hnone, hcapital⟩
      · refine .inl ⟨c :: before, d, after, rfl, List.forall_mem_cons.2 ⟨hc, hbefore⟩, hd, ?_⟩
        simp [capitalize, hc, hcapital]
      · exact .inr ⟨List.forall_mem_cons.2 ⟨hc, hnone⟩, by simp [capitalize, hc, hcapital]⟩

/-- Capitalizing gives a capitalized text. -/
theorem isCapitalized_capitalize (s : String) :
    IsCapitalized s (String.ofList (capitalize s.toList)) := by
  rcases capitalize_cases s.toList with ⟨before, c, after, hs, hbefore, hc, hcapital⟩ | ⟨hnone, hcapital⟩
  · exact .inl ⟨before, c, after, hs, hbefore, hc, by rw [String.toList_ofList, hcapital]⟩
  · exact .inr ⟨hnone, by rw [hcapital, String.ofList_toList]⟩

/-! ## The word to report -/

/-- The first of the longest words; the empty one if there are none. -/
def IsFirstLongest (words : List String) (word : String) : Prop :=
  (words = [] ∧ word = "")
    ∨ ∃ before after, words = before ++ word :: after
      ∧ (∀ u ∈ before, u.length < word.length) ∧ ∀ u ∈ after, u.length ≤ word.length

/-- The longest unknown word of a walk is found among its unknown slots, in their order. -/
theorem longestUnknown_walk (t : Tally) (second first : Slot) (slots : List Slot) :
    (t.walk second first slots).longestUnknown
      = ((slots.filter (·.unknown)).map (·.word)).foldl longer t.longestUnknown := by
  induction slots generalizing t second first with
  | nil => rfl
  | cons here rest ih =>
    rw [Tally.walk, ih]
    cases hunknown : here.unknown <;> simp [Tally.take, hunknown]

/-- Among a word and the words after it there is a longest one with only shorter ones before it, and
none that is longer after it. -/
theorem foldl_longer (word : String) (words : List String) :
    ∃ before after, word :: words = before ++ words.foldl longer word :: after
      ∧ (∀ u ∈ before, u.length < (words.foldl longer word).length)
      ∧ ∀ u ∈ after, u.length ≤ (words.foldl longer word).length := by
  induction words generalizing word with
  | nil => exact ⟨[], [], rfl, by simp, by simp⟩
  | cons other words ih =>
    obtain ⟨before, after, hsplit, hbefore, hafter⟩ := ih (longer word other)
    rw [List.foldl_cons]
    generalize hlongest : words.foldl longer (longer word other) = longest at *
    -- the longest is at least as long as the word that the search goes on with
    have hle : (longer word other).length ≤ longest.length := by
      have hmem : longer word other ∈ before ++ longest :: after := hsplit ▸ List.mem_cons_self ..
      rcases List.mem_append.1 hmem with hmem | hmem
      · exact Nat.le_of_lt (hbefore _ hmem)
      · rcases List.mem_cons.1 hmem with heq | hmem
        · rw [heq]
        · exact hafter _ hmem
    -- of two words of one length the first is kept
    by_cases hlt : word.length < other.length
    · rw [longer, if_pos hlt] at hsplit hle
      exact ⟨word :: before, after, by rw [hsplit, List.cons_append],
        List.forall_mem_cons.2 ⟨by omega, hbefore⟩, hafter⟩
    · rw [longer, if_neg hlt] at hsplit
      cases before with
      | nil =>
        obtain ⟨rfl, rfl⟩ := List.cons.inj hsplit
        exact ⟨[], other :: words, rfl, by simp, List.forall_mem_cons.2 ⟨by omega, hafter⟩⟩
      | cons first before =>
        obtain ⟨rfl, hwords⟩ := List.cons.inj hsplit
        obtain ⟨hword, hbefore⟩ := List.forall_mem_cons.1 hbefore
        exact ⟨word :: other :: before, after, by rw [hwords]; rfl,
          List.forall_mem_cons.2 ⟨hword, List.forall_mem_cons.2 ⟨by omega, hbefore⟩⟩, hafter⟩

/-- Keeping the longer of two words all along a list gives the first of the longest words. -/
theorem isFirstLongest_foldl (h : ∀ word ∈ words, word ≠ "") :
    IsFirstLongest words (words.foldl longer "") := by
  obtain ⟨before, after, hsplit, hbefore, hafter⟩ := foldl_longer "" words
  cases before with
  | nil =>
    -- the empty word is the longest one only if there are no others
    obtain ⟨hempty, rfl⟩ := List.cons.inj hsplit
    refine .inl ⟨List.eq_nil_iff_forall_not_mem.2 fun word hword => h word hword ?_, hempty.symm⟩
    have hlength := hafter word hword
    rw [← hempty] at hlength
    simpa using hlength
  | cons empty before =>
    obtain ⟨-, hwords⟩ := List.cons.inj hsplit
    exact .inr ⟨before, after, hwords, (List.forall_mem_cons.1 hbefore).2, hafter⟩

/-! ## A whole text -/

/-- A window that comes from before a text with a word finds what a walk finds. The window has to
move over its empty start, where a walk looks at three empty slots. -/
theorem slide_ofText (h : ∃ c ∈ text.toList, Segment.isWordPart c = true) :
    Window.empty.slide {} ((Segment.ofText text).map (Slot.ofSegment v))
      = Tally.walk {} {} {} ((Segment.ofText text).map (Slot.ofSegment v)) := by
  have horderly := Window.orderly_empty (Segment.cut_ofText text)
    (Segment.word_ne_empty_of_mem_head? h) v
  rw [horderly.slide_eq]
  simp only [Window.ahead, Window.empty, Tally.walk_empty_cons]

/-- The slot of a segment is seen as a fresh place, and so is the empty slot behind the last one. -/
theorem seen_getD_ofSegment (v : Vocabulary) (segs : List Segment) (k : Nat) :
    ((segs.map (Slot.ofSegment v)).getD k {}).seen = freshAt v (segs.map (·.word)) k := by
  rw [freshAt, placeAt_natCast, List.getD_eq_getElem?_getD, List.getElem?_map, List.getElem?_map]
  cases segs[k]? with
  | none => rfl
  | some s => simp [Slot.ofSegment_eq, Slot.seen]

/-- A segment is marked with its gap and its word, in brackets if the word has no role, and in its
stored form if it has one. -/
theorem marked_ofSegment (v : Vocabulary) (s : Segment) :
    (Slot.ofSegment v s).marked
      = s.gap ++ if v.role s.word = .unknown then "(" ++ s.word ++ ")" else v.shown s.word := by
  rw [Slot.ofSegment_eq, Slot.marked]
  by_cases hrole : v.role s.word = .unknown
  · simp [hrole, Vocabulary.shown_of_role_eq_unknown hrole]
  · simp [hrole]

/-- The unknown slots of a text are those whose words have no role. -/
theorem unknown_ofSegment (v : Vocabulary) (segs : List Segment) :
    ((segs.map (Slot.ofSegment v)).filter (·.unknown)).map (·.word)
      = (segs.map (·.word)).filter (v.role · = .unknown) := by
  induction segs with
  | nil => rfl
  | cons s segs ih =>
    by_cases hrole : v.role s.word = .unknown
    · simp [Slot.ofSegment_eq, hrole, Vocabulary.shown_of_role_eq_unknown hrole] at ih ⊢
      exact ih
    · simp [Slot.ofSegment_eq, hrole] at ih ⊢
      exact ih

/-- The guesses for a text are those for its places in their order. The marked text is made of its
gaps and words, and the first of the longest unknown words is reported. -/
theorem guess_by_place (v : Vocabulary)
    (h : ∃ c ∈ text.toList, Segment.isWordPart c = true) :
    let segs := Segment.ofText text
    let words := segs.map (·.word)
    (v.guess text).2 = (List.range words.length).filterMap (guessAt v words)
      ∧ IsCapitalized
        (String.join (segs.map fun s =>
          s.gap ++ if v.role s.word = .unknown then "(" ++ s.word ++ ")" else v.shown s.word))
        (v.guess text).1.marked
      ∧ IsFirstLongest (words.filter (v.role · = .unknown)) (v.guess text).1.longestUnknown := by
  intro segs words
  let slots := segs.map (Slot.ofSegment v)
  have hguess : v.guess text = ({ v with
      marked := String.ofList (capitalize (Tally.walk {} {} {} slots).marked.toList)
      longestUnknown := (Tally.walk {} {} {} slots).longestUnknown },
      (Tally.walk {} {} {} slots).guesses) := by
    rw [Vocabulary.guess, slide_ofText h]
  rw [hguess]
  -- the three of them are read off one walk along the slots
  refine ⟨?_, ?_, ?_⟩
  · have hfresh : ∀ k : Nat, (slots.getD k {}).seen = freshAt v words ((0 : Nat) + k) := by
      intro k
      rw [seen_getD_ofSegment, Int.natCast_zero, Int.zero_add]
    have hwalk : (Tally.walk {} {} {} slots).guesses
        = [] ++ (List.range' 0 slots.length).filterMap (guessAt v words) :=
      guesses_walk hfresh rfl rfl
    rw [hwalk, List.nil_append, List.range_eq_range']
    simp only [slots, words, List.length_map]
  · have hmarked := marked_walk {} {} {} slots
    rw [List.map_map, String.empty_append] at hmarked
    have hmap := List.map_congr_left fun s (_ : s ∈ segs) => marked_ofSegment v s
    rw [← hmap, ← Function.comp_def, ← hmarked]
    exact isCapitalized_capitalize _
  · have hlongest := longestUnknown_walk {} {} {} slots
    rw [unknown_ofSegment] at hlongest
    rw [hlongest]
    apply isFirstLongest_foldl
    intro word hword
    exact (known_of_role_eq_unknown (by simpa using (List.mem_filter.1 hword).2)).1

/-- A text with unknown words next to each other and a mark at its end. -/
theorem guess_by_place_wug :
    let v := Vocabulary.ofWords ["the", "is"]
    let text := "the grumpy wug is tall."
    (∃ c ∈ text.toList, Segment.isWordPart c = true)
      ∧ (v.guess text).2 = (List.range 6).filterMap (guessAt v ["the", "grumpy", "wug", "is", "tall", ""])
      ∧ IsCapitalized "the (grumpy) (wug) is (tall)." (v.guess text).1.marked
      ∧ IsFirstLongest ["grumpy", "wug", "tall"] (v.guess text).1.longestUnknown := by
  intro v text
  have hword : ∃ c ∈ text.toList, Segment.isWordPart c = true := ⟨'t', by decide, by decide +kernel⟩
  have hwords : (Segment.ofText text).map (·.word) = ["the", "grumpy", "wug", "is", "tall", ""] := by
    decide +kernel
  have hmarked : String.join ((Segment.ofText text).map fun s =>
      s.gap ++ if v.role s.word = .unknown then "(" ++ s.word ++ ")" else v.shown s.word)
        = "the (grumpy) (wug) is (tall)." := by
    decide +kernel
  have hunknown : ["the", "grumpy", "wug", "is", "tall", ""].filter (v.role · = .unknown)
      = ["grumpy", "wug", "tall"] := by
    decide +kernel
  have hguess := guess_by_place v hword
  simp only [hwords, hmarked, hunknown] at hguess
  exact ⟨hword, hguess⟩

end Utterance.Guess
