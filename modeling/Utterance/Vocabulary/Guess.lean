import Utterance.Inflection.Suffix
import Utterance.Vocabulary
import Utterance.Vocabulary.Segment

/-!
# Guessing categories

What an unknown word probably is, from the words around it and from its ending. A word is looked at
together with the two words before it and the three after it.
-/

namespace Utterance

/-! ## Roles -/

/-- What a word does in a phrase. -/
inductive Role where
  | unknown
  | plain
  /-- A word that stands between phrases, or no word at all. -/
  | pause
  | auxiliary
  | preposition
  /-- A determiner or a number. -/
  | determiner
  deriving DecidableEq, Repr

namespace Role

/-- Number of a role. -/
def number : Role → Int
  | .unknown => -1
  | .plain => 0
  | .pause => 1
  | .auxiliary => 2
  | .preposition => 3
  | .determiner => 4

/-- Whether a phrase ends before a word of this role. -/
def bounds (r : Role) : Bool := r != .unknown && r != .plain

/-- Whether a word of this role opens a noun phrase. -/
def opens (r : Role) : Bool := r == .preposition || r == .determiner

/-- The determiners. -/
def determiners : List String := ["a", "an", "the", "my", "your"]

/-- The prepositions. -/
def prepositions : List String :=
  ["in", "on", "at", "to", "from", "into", "onto", "with", "of", "left", "right", "front", "back",
    "behind", "near", "close", "between", "inside", "outside", "under", "underneath", "over",
    "above", "toward"]

/-- The auxiliaries. -/
def auxiliaries : List String := ["is", "am", "are", "was", "were", "do", "does", "did"]

/-- The words between phrases. -/
def pauses : List String :=
  ["and", "but", "i", "me", "you", "he", "she", "him", "her", "it", "they", "them", "here", "there",
    "that", "this", "something", "anything", "someone", "anyone"]

/-- Role of a known word in lower case. -/
def ofKnown (word : String) : Role :=
  if determiners.contains word then .determiner
  else if prepositions.contains word then .preposition
  else if auxiliaries.contains word then .auxiliary
  else if pauses.contains word then .pause
  else .plain

end Role

/-- Role of a word. Whatever begins with a number counts as a number. -/
def Vocabulary.role (v : Vocabulary) (word : String) : Role :=
  if word.isEmpty then .pause
  else if Text.startsNumber word then .determiner
  else match v.lookup word with
    | none => .unknown
    | some stored => .ofKnown stored

/-! ## Guesses -/

/-- An unknown word and the category it probably belongs to. -/
structure Guess where
  word : String
  category : String
  deriving DecidableEq, Repr

namespace Guess

/-- Whether a word has at least `n` characters and one of the endings. -/
def ends (word : String) (n : Nat) (endings : List String) : Bool :=
  n ≤ word.length && endings.any (Suffix.endsWith word)

/-- Whether a word ends like a possessive. -/
def isPossessive (word : String) : Bool := ends word 5 ["'s", "s'"]

/-- The category of a verb form by its ending. -/
def verbEnding? (word : String) : Option String :=
  if ends word 6 ["ing"] then some "ACT-G"
  else if ends word 5 ["ed"] then some "ACT-D"
  else none

/-- Category of a word where a noun is due. -/
def noun (word : String) : String :=
  if isPossessive word then "AKO-P" else if ends word 4 ["s"] then "AKO-S" else "AKO"

/-- Category of a word where a name is due. With `plural` set a small word that ends in `s` is a
noun. -/
def name (plural : Bool) (word : String) : String :=
  if plural && Suffix.endsWith word "s" && !word.toList.head?.any Text.isUpper then noun word
  else if isPossessive word then "NAME-P"
  else "NAME"

/-- Category of a word where an adjective is due. -/
def adjective (word : String) : String :=
  if isPossessive word then "AKO-P"
  else match verbEnding? word with
    | some category => category
    | none =>
      if ends word 6 ["est"] then "HQ-EST" else if ends word 5 ["er"] then "HQ-ER" else "HQ"

/-- Category of a word where a verb is due. -/
def verb (word : String) : String :=
  match verbEnding? word with
  | some category => category
  | none => if ends word 4 ["s"] then "ACT-S" else "ACT"

/-- Category of a word by its ending alone. -/
def byEnding? (word : String) : Option String :=
  if ends word 5 ["ly"] then some "MOD" else verbEnding? word

/-! ## Windows -/

/-- A word in its surroundings: the gap before it, its stored form or itself if it has none, whether
it is unknown, and its role. -/
structure Slot where
  gap : String := ""
  word : String := ""
  unknown : Bool := false
  role : Role := .pause

/-- The slot of a segment. -/
def Slot.ofSegment (v : Vocabulary) (s : Segment) : Slot :=
  let role := v.role s.word
  { gap := s.gap
    word := if role == .unknown then s.word else (v.lookup s.word).getD s.word
    unknown := role == .unknown
    role }

/-- A slot with the two before it and the three after it. -/
structure Window where
  second : Slot
  first : Slot
  here : Slot
  next : Slot
  afterNext : Slot
  last : Slot

/-- The category that the surroundings of an unknown word call for. -/
def Window.category? (w : Window) : Option String :=
  let word := w.here.word
  let before := w.first.role
  let after := w.next.role
  -- at the end of a phrase
  if before == .preposition && after.bounds then some (name true word)
  else if before == .determiner && after.bounds then some (noun word)
  else if w.second.role.opens && after.bounds then some (noun word)
  -- between a determiner and the noun it belongs to
  else if before == .determiner && w.afterNext.role.bounds then some (adjective word)
  else if after == .auxiliary then some (name true word)
  -- between two phrases
  else if before.bounds && after.opens then some (verb word)
  else if before == .auxiliary && w.next.word.isEmpty then some (adjective word)
  -- in a sentence that says what the word is
  else if w.second.word == "name" && w.first.word == "is" then some (name false word)
  else if w.next.word == "is" && w.last.word == "name" then some (name false word)
  else if w.next.word == "is" && w.last.word == "property" then some (adjective word)
  else if w.next.word == "is" && w.last.word == "action" then some (verb word)
  else if w.next.word == "is" && w.last.word == "manner" then some "MOD"
  else byEnding? word

/-- The guess for the slot in the middle of a window. -/
def Window.guess? (w : Window) : Option Guess :=
  if w.here.role == .unknown then w.category?.map (⟨w.here.word, ·⟩) else none

/-- A slot in a marked text. -/
def Slot.marked (s : Slot) : String :=
  s.gap ++ (if s.unknown then "(" ++ s.word ++ ")" else s.word)

/-- Characters with the first one that belongs to a word in upper case. -/
def capitalize : List Char → List Char
  | [] => []
  | c :: cs => if Segment.isWordPart c then Text.upperChar c ++ cs else c :: capitalize cs

/-- The longer of two words, the first if they have the same length. -/
def longer (a b : String) : String := if a.length < b.length then b else a

/-! ## Along a text -/

/-- What is known of the slots that a window has left behind. -/
structure Tally where
  guesses : List Guess := []
  marked : String := ""
  longestUnknown : String := ""

/-- Takes one more slot and the guess for it. -/
def Tally.take (t : Tally) (s : Slot) (guess : Option Guess) : Tally :=
  { guesses := t.guesses ++ guess.toList
    marked := t.marked ++ s.marked
    longestUnknown := if s.unknown then longer t.longestUnknown s.word else t.longestUnknown }

/-- Whether a slot has neither a gap nor a word. -/
def Slot.isBare (s : Slot) : Bool := s.gap.isEmpty && s.word.isEmpty

namespace Window

/-- A window without a text. -/
def empty : Window := ⟨{}, {}, {}, {}, {}, {}⟩

/-- The window after a look at its middle. A word with a guess counts as a plain word for those that
follow. -/
def settle (w : Window) : Window :=
  if w.guess?.isSome then { w with here := { w.here with role := .plain } } else w

/-- The window one place further on, with the slot that comes into it. -/
def shift (w : Window) (s : Slot) : Window :=
  ⟨w.first, w.here, w.next, w.afterNext, w.last, s⟩

/-- Whether a window is past the end of a text: there is nothing in its middle and no word after it. -/
def isPast (w : Window) : Bool :=
  w.here.isBare && w.next.word.isEmpty && w.afterNext.word.isEmpty && w.last.word.isEmpty

/-- Number of slots from the middle of a window up to the last one that is not bare. -/
def reach (w : Window) : Nat :=
  (([w.last, w.afterNext, w.next, w.here].map Slot.isBare).dropWhile id).length

theorem reach_le (w : Window) : w.reach ≤ 4 :=
  (List.dropWhile_sublist _).length_le

/-- When nothing more comes into a window, what is left in it gets shorter. -/
theorem reach_shift_lt {w : Window} (h : (w.shift {}).isPast = false) :
    (w.shift {}).reach < w.reach := by
  have hbare : Slot.isBare {} = true := rfl
  cases hlast : w.last.isBare with
  | false => simp [reach, shift, hbare, hlast]
  | true =>
    cases hafterNext : w.afterNext.isBare with
    | false => simp [reach, shift, hbare, hlast, hafterNext]
    | true =>
      cases hnext : w.next.isBare with
      | false => simp [reach, shift, hbare, hlast, hafterNext, hnext]
      | true =>
        -- nothing is left that the window could move to
        simp only [Slot.isBare, Bool.and_eq_true] at hlast hafterNext hnext
        simp [isPast, shift, Slot.isBare, hlast, hafterNext, hnext] at h

theorem reach_settle (w : Window) : w.settle.reach = w.reach := by
  unfold settle
  split <;> rfl

/-- A window that moves on has less before it. A slot that comes into the window was one of those to
come, and counts five there; it adds four to the reach at most. -/
theorem reach_next_lt {w : Window} {slots : List Slot}
    (h : (w.settle.shift (slots.headD {})).isPast = false) :
    5 * slots.tail.length + (w.settle.shift (slots.headD {})).reach
      < 5 * slots.length + w.reach := by
  cases slots with
  | nil =>
    have := reach_shift_lt h
    rw [reach_settle] at this
    simpa using this
  | cons s slots =>
    have := reach_le (w.settle.shift s)
    simp only [List.headD_cons, List.tail_cons, List.length_cons]
    omega

/-- Moves a window along slots until it is past them. -/
def slide (w : Window) (t : Tally) (slots : List Slot) : Tally :=
  let t := t.take w.here w.guess?
  let next := w.settle.shift (slots.headD {})
  if next.isPast then t else next.slide t slots.tail
termination_by 5 * slots.length + w.reach
decreasing_by
  rename_i hpast
  exact reach_next_lt (eq_false_of_ne_true hpast)

end Window

end Guess

/-- Guesses the categories of the unknown words of a text, as far as their surroundings explain
them. -/
def Vocabulary.guess (v : Vocabulary) (text : String) : Vocabulary × List Guess :=
  let slots := (Segment.ofText text).map (Guess.Slot.ofSegment v)
  let t := Guess.Window.empty.slide {} slots
  ({ v with
      marked := String.ofList (Guess.capitalize t.marked.toList)
      longestUnknown := t.longestUnknown },
    t.guesses)

end Utterance
