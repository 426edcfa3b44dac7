import Utterance.Outcome
import Utterance.Text.Blank
import Utterance.Text.Number

/-!
# Confidences

How sure a recogniser is of each word of a sentence, from nought to a hundred.
-/

namespace Utterance

/-- Confidences as they are given: usually a text with a number for each word. -/
inductive Confidence where
  | absent
  | text (s : String)
  /-- A value that is no text. -/
  | other (d : Datum)

namespace Confidence

/-- The confidence that stands at word `i`, cut to the range; nothing if it is no number. -/
def readWord (i : Nat) (token : String) : Option Int × Journal :=
  match Text.readInteger? token with
  | none =>
    (none,
      [Topic.badConfidence.entry
        ("Word " ++ toString i ++ " confidence '" ++ token ++ "' is not a number, ignored")])
  | some v =>
    if v < 0 || 100 < v then
      (some (if v < 0 then 0 else 100),
        [Topic.clampedConfidence.entry
          ("Word " ++ toString i ++ " confidence " ++ toString v ++ " outside 0..100, clamped")])
    else (some v, [])

/-- The confidences of the words from `i` on. -/
def readWords (i : Nat) : List String → List (Option Int) × Journal
  | [] => ([], [])
  | token :: rest =>
    let (v, notes) := readWord i token
    let (vs, more) := readWords (i + 1) rest
    (v :: vs, notes ++ more)

/-- The confidences of a sentence of `n` words. -/
def read (n : Nat) : Confidence → Except Fault (List (Option Int) × Journal)
  | .absent => .ok ([], [])
  | .text s => .ok (readWords 0 ((Text.words s).take n))
  | .other d => if d.isNothing then .ok ([], []) else .error (.confidenceNotText d.kind)

end Confidence

end Utterance
