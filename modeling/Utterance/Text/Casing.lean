import Utterance.Text.CaseMap
import Utterance.Text.LetterCase

/-!
# Changing case

Full case conversion of texts: one character may become several, and a capital sigma becomes a
final sigma at the end of a word.
-/

namespace Utterance.Text

/-! ## Lower case -/

/-- Lower case of a character that stands alone. -/
def lowerChar (c : Char) : List Char :=
  if c.toNat < 128 then [c.toLower]
  else if c.toNat = 0x130 then ['i', Char.ofNat 0x307]
  else [Char.ofNat (mapCase loweringRuns c.toNat)]

/-- Whether the nearest character that is not passed over has case. -/
def facesCased (cs : List Char) : Bool :=
  match cs.dropWhile isCaseIgnorable with
  | c :: _ => isCased c
  | [] => false

/-- Lower case of `cs` after the characters `before`, nearest first. A capital sigma is final if a
character with case comes before it and none after it. -/
def lowerAfter (before : List Char) : List Char → List Char
  | [] => []
  | c :: cs =>
    if c = 'Σ' then
      (if facesCased before && !facesCased cs then 'ς' else 'σ') :: lowerAfter (c :: before) cs
    else lowerChar c ++ lowerAfter (c :: before) cs

/-- Lower case of a text. -/
def lower (s : String) : String := String.ofList (lowerAfter [] s.toList)

/-! ## Upper case -/

/-- Upper case of a character. -/
def upperChar (c : Char) : List Char :=
  if c.toNat < 128 then [c.toUpper]
  else match raisingSequences.lookup c.toNat with
    | some ns => ns.map Char.ofNat
    | none => [Char.ofNat (mapCase raisingRuns c.toNat)]

/-- Upper case of a text. -/
def upper (s : String) : String := String.ofList (s.toList.flatMap upperChar)

/-- Equality of texts in disregard of case. -/
def sameFolded (a b : String) : Bool := lower a == lower b

end Utterance.Text
