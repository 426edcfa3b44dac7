import Utterance.Vocabulary
import Utterance.Vocabulary.Segment

/-!
# Repairing typing errors

Small edits that turn unknown words into known ones. The cheapest come first: a letter moves across
the boundary with the word before, then with the word after, the word is split in two, two letters
are swapped, a letter is put in and, if that is allowed, a letter is changed.
-/

namespace Utterance.Vocabulary

/-! ## Across a boundary -/

/-- All characters but the last, and the last. -/
def splitLast (s : String) : String × String :=
  (String.ofList s.toList.dropLast, String.ofList (s.toList.drop (s.length - 1)))

/-- The first character, and all others. -/
def splitFirst (s : String) : String × String :=
  (String.ofList (s.toList.take 1), String.ofList (s.toList.drop 1))

/-- A pair of words, if both are known. -/
def bothKnown (v : Vocabulary) (first second : String) : Option (String × String) :=
  if v.known first && v.known second then some (first, second) else none

/-- Two words after the last letter of the first has moved to the second. -/
def moveRight (v : Vocabulary) (first second : String) : Option (String × String) :=
  if first.length < 2 then none
  else
    let (front, last) := splitLast first
    v.bothKnown front (last ++ second)

/-- Two words after the first letter of the second has moved to the first. -/
def moveLeft (v : Vocabulary) (first second : String) : Option (String × String) :=
  if second.length < 2 then none
  else
    let (initial, rest) := splitFirst second
    v.bothKnown (first ++ initial) rest

/-! ## Within a word -/

/-- The positions inside a word between two letters, the last one first. -/
def cuts (word : String) : List Nat := ((List.range (word.length - 1)).map (· + 1)).reverse

/-- The word as two known words, the first as long as possible. -/
def split (v : Vocabulary) (word : String) : Option String :=
  (cuts word).findSome? fun i =>
    let first := String.ofList (word.toList.take i)
    let second := String.ofList (word.toList.drop i)
    if v.known first && (v.lookup second).isSome then some (first ++ " " ++ second) else none

/-- `cs` with the letters on both sides of position `i` swapped. -/
def swapAt (i : Nat) (cs : List Char) : List Char :=
  cs.take (i - 1) ++ ((cs.drop (i - 1)).take 2).reverse ++ cs.drop (i + 1)

/-- The word with two neighbouring letters swapped, the last possible ones. -/
def swap (v : Vocabulary) (word : String) : Option String :=
  (cuts word).findSome? fun i =>
    let swapped := String.ofList (swapAt i word.toList)
    if v.known swapped then some swapped else none

/-- Whether `longer` is `cs` with letters put in: at most one, and none if `room` is not set. What is
left of `cs` at the end of `longer` is not looked at. -/
def fits (room : Bool) : List Char → List Char → Bool
  | _, [] => true
  | [], _ :: longer => room && fits false [] longer
  | c :: cs, d :: longer =>
    if c = d then fits room cs longer else room && fits false (c :: cs) longer

/-- The first known word that is the word with one letter put in. -/
def lengthen (v : Vocabulary) (word : String) : Option String :=
  let probe := (Text.lower word).toList
  (v.bin (probe.length + 1)).find? fun longer =>
    longer.length == probe.length + 1 && fits true probe longer.toList

/-- The first known word that is the word with at most one letter changed. -/
def alter (v : Vocabulary) (word : String) : Option String :=
  let probe := (Text.lower word).toList
  (v.bin probe.length).find? fun other =>
    other.length == probe.length && (probe.zip other.toList).countP (fun (a, b) => a != b) ≤ 1

/-- The first edit within a word that makes it known. -/
def mend (v : Vocabulary) (word : String) : Option String :=
  v.split word <|> v.swap word <|> v.lengthen word
    <|> (if v.substitute then v.alter word else none)

/-! ## Whole texts -/

/-- Segments after a repair, and what was replaced by what. -/
structure Repaired where
  /-- The segments so far, the last one first. -/
  done : List Segment := []
  changes : List (String × String) := []

namespace Repaired

/-- One more segment as it is. -/
def keep (r : Repaired) (s : Segment) : Repaired := { r with done := s :: r.done }

/-- One more change. -/
def change (r : Repaired) (old new : String) : Repaired :=
  { r with changes := r.changes ++ [(old, new)] }

end Repaired

/-- Two words with the space between them. -/
def pairText (first second : String) : String := first ++ " " ++ second

/-- The word before an unknown one, with what stands before that, if only a space lies between. -/
def before? (r : Repaired) (s : Segment) : Option (Segment × List Segment) :=
  match r.done with
  | p :: rest => if !p.word.isEmpty && s.gap == " " then some (p, rest) else none
  | [] => none

/-- A repair at the boundary with the word before. -/
def repairBefore (v : Vocabulary) (r : Repaired) (s : Segment) : Option Repaired := do
  let (p, rest) ← before? r s
  let (first, second) ← v.moveRight p.word s.word <|> v.moveLeft p.word s.word
  return ({ r with done := ⟨s.gap, second⟩ :: ⟨p.gap, first⟩ :: rest } : Repaired).change
    (pairText p.word s.word) (pairText first second)

/-- A repair at the boundary with the word after, `n`, if only a space lies between. -/
def repairAfter (v : Vocabulary) (r : Repaired) (s n : Segment) : Option Repaired := do
  guard (n.gap == " " && !n.word.isEmpty)
  let (first, second) ← v.moveLeft s.word n.word <|> v.moveRight s.word n.word
  return ((r.keep ⟨s.gap, first⟩).keep ⟨" ", second⟩).change
    (pairText s.word n.word) (pairText first second)

/-- A repair within the word. A word that cannot be repaired stays. -/
def repairWithin (v : Vocabulary) (r : Repaired) (s : Segment) : Repaired :=
  match v.mend s.word with
  | some word => (r.keep ⟨s.gap, word⟩).change s.word word
  | none => r.keep s

/-- Repairs segments after those that are done. -/
def repairFrom (v : Vocabulary) (r : Repaired) : List Segment → Repaired
  | [] => r
  | [s] =>
    if s.word.isEmpty || v.known s.word then r.keep s
    else (v.repairBefore r s).getD (v.repairWithin r s)
  | s :: n :: rest =>
    if s.word.isEmpty || v.known s.word then repairFrom v (r.keep s) (n :: rest)
    else
      match v.repairBefore r s with
      | some r => repairFrom v r (n :: rest)
      | none =>
        match v.repairAfter r s n with
        -- the word after is part of the repair and is not looked at again
        | some r => repairFrom v r rest
        | none => repairFrom v (v.repairWithin r s) (n :: rest)

/-- Repairs a text, which must be given. The result is the new text, or nothing if nothing was
changed. -/
def repair (v : Vocabulary) : Option String → Outcome Vocabulary (Option String)
  | none => ⟨v, .error (.refused (.needsText .repair)), []⟩
  | some text =>
    let r := v.repairFrom {} (Segment.ofText text)
    let v := { v with corrections := r.changes }
    if r.changes.isEmpty then ⟨v, .ok none, []⟩
    else
      let fixed := Segment.join r.done.reverse
      ⟨v, .ok (some fixed),
        [Topic.typoFix.entry ("Typo fix: '" ++ text ++ "' -> '" ++ fixed ++ "'")]⟩

end Utterance.Vocabulary
