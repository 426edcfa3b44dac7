import Utterance.Text.Numeric

/-!
# Segments

A text cut into words and the gaps before them. Nothing is lost: gaps and words put together are the
text again.
-/

namespace Utterance

/-- A word and the gap before it. -/
structure Segment where
  gap : String
  word : String
  deriving DecidableEq, Repr

namespace Segment

/-- A character of a word: a letter, a digit of any kind, a hyphen, an underscore or an apostrophe. -/
def isWordPart (c : Char) : Bool :=
  Text.isAlnum c || c == '-' || c == '_' || c == '\x27'

/-- The text of a segment. -/
def text (s : Segment) : String := s.gap ++ s.word

/-- What follows the first gap and the first word. -/
def afterFirst (cs : List Char) : List Char :=
  (cs.dropWhile (!isWordPart ·)).dropWhile isWordPart

theorem length_dropWhile_le {α : Type} (p : α → Bool) (xs : List α) :
    (xs.dropWhile p).length ≤ xs.length :=
  (List.dropWhile_sublist p).length_le

/-- A gap and a word take at least one character. -/
theorem length_afterFirst_lt (c : Char) (cs : List Char) :
    (afterFirst (c :: cs)).length < (c :: cs).length := by
  unfold afterFirst
  rw [List.dropWhile_cons]
  split
  · have := length_dropWhile_le isWordPart (cs.dropWhile (!isWordPart ·))
    have := length_dropWhile_le (!isWordPart ·) cs
    simp only [List.length_cons]
    omega
  · rename_i h
    have hc : isWordPart c = true := by simpa using h
    rw [List.dropWhile_cons_of_pos hc]
    have := length_dropWhile_le isWordPart cs
    simp only [List.length_cons]
    omega

/-- The segments of a list of characters. -/
def ofChars : List Char → List Segment
  | [] => []
  | c :: cs =>
    let gap := (c :: cs).takeWhile (!isWordPart ·)
    let word := ((c :: cs).dropWhile (!isWordPart ·)).takeWhile isWordPart
    ⟨String.ofList gap, String.ofList word⟩ :: ofChars (afterFirst (c :: cs))
termination_by cs => cs.length
decreasing_by exact length_afterFirst_lt c cs

/-- The segments of a text. The last word may be empty. -/
def ofText (s : String) : List Segment := ofChars s.toList

/-- The text of segments. -/
def join (segs : List Segment) : String := String.join (segs.map text)

end Segment

end Utterance
