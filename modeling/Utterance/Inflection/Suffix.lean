import Utterance.Fault
import Utterance.Text.Blank

/-!
# Suffix rules

How regular forms are spelled, and how a spelling is undone. The rules look at the last few letters
of a word only, so they take a word as its letters from the last one to the first; the operations on
`String` turn it round.
-/

namespace Utterance.Suffix

/-! ## Letters -/

/-- A vowel letter. -/
def isVowel (c : Char) : Bool := c == 'a' || c == 'e' || c == 'i' || c == 'o' || c == 'u'

/-- Whether the last letter, if there is one, is a vowel. -/
def endsInVowel (w : List Char) : Bool := w.head?.any isVowel

/-- Number of maximal runs of vowels. `inside` tells that a run goes on at the start. -/
def vowelGroups (inside : Bool) : List Char → Nat
  | [] => 0
  | c :: cs => (if isVowel c && !inside then 1 else 0) + vowelGroups (isVowel c) cs

/-- Whether a word ends in a single vowel and a consonant that is doubled before a vowel. -/
def doublesEnd : List Char → Bool
  | z :: v :: w =>
    !endsInVowel w && isVowel v && !isVowel z && !(z == 'r' || z == 'w' || z == 'y')
  | _ => false

/-- Whether a word ends in a single vowel and a doubled consonant that was single before. -/
def hasDoubledEnd : List Char → Bool
  | z :: y :: v :: w =>
    !endsInVowel w && isVowel v && y == z && !isVowel z
      && !(z == 'f' || z == 'l' || z == 's' || z == 'z')
  | _ => false

/-- Whether a word ends in a soft consonant, which lost a final e before a vowel. -/
def softEnd : List Char → Bool
  | z :: y :: _ => (isVowel y || y == 'n') && (z == 'c' || z == 's' || z == 'z')
  | _ => false

/-! ## Plural and present tense -/

/-- Adds the ending of plural nouns and present tense verbs. -/
def addS (w : List Char) : List Char :=
  match w with
  | 'y' :: c :: rest => if isVowel c then 's' :: w else 's' :: 'e' :: 'i' :: c :: rest
  | 'h' :: 'c' :: _ => 's' :: 'e' :: w
  | 'h' :: 's' :: _ => 's' :: 'e' :: w
  | 's' :: _ => 's' :: 'e' :: w
  | 'x' :: _ => 's' :: 'e' :: w
  | 'z' :: _ => 's' :: 'e' :: w
  | _ => 's' :: w

/-- Takes the ending of plural nouns and present tense verbs off. -/
def removeS (w : List Char) : List Char :=
  match w with
  | 's' :: 'e' :: 'h' :: 'c' :: rest => 'h' :: 'c' :: rest
  | 's' :: 'e' :: 'h' :: 's' :: rest => 'h' :: 's' :: rest
  | 's' :: 'e' :: 'x' :: rest => 'x' :: rest
  | 's' :: 'e' :: 'z' :: rest => if endsInVowel rest then 'e' :: 'z' :: rest else 'z' :: rest
  | 's' :: 'e' :: 's' :: rest => if endsInVowel rest then 'e' :: 's' :: rest else 's' :: rest
  | 's' :: 'e' :: 'i' :: rest => 'y' :: rest
  | 's' :: rest => rest
  | _ => w

/-! ## Endings that start with a vowel -/

/-- Prepares a word for an ending that starts with the vowel `first`: a final consonant is doubled, a
final e is dropped, a final y becomes i, or a hyphen is added to a hyphenated word. -/
def adapt (first : Char) (w : List Char) : List Char :=
  if doublesEnd w then
    -- as in stop, stopped
    match w with
    | z :: rest => z :: z :: rest
    | [] => []
  else
    match w with
    | 'e' :: y :: rest =>
      if first == 'e' || !isVowel y then y :: rest
      else if w.contains '-' then '-' :: w else w
    | 'y' :: y :: rest =>
      if !isVowel y && first != 'i' then 'i' :: y :: rest
      else if w.contains '-' then '-' :: w else w
    | _ => if w.contains '-' then '-' :: w else w

/-- Adds an ending, given from its first letter to its last. Without a first letter an ending cannot
be added to a word of two letters or more, unless its final consonant is doubled. -/
def addVowel (w ending : List Char) : Except Fault (List Char) :=
  match ending with
  | first :: _ => .ok (ending.reverse ++ adapt first w)
  | [] =>
    if doublesEnd w || w.length < 2 then .ok (adapt 'e' w) else .error .outOfRange

/-- Undoes `adapt` on a word whose ending has been cut off. -/
def restore (w : List Char) : List Char :=
  match w with
  | '-' :: rest => rest
  | _ =>
    if hasDoubledEnd w then w.tail
    else if softEnd w || doublesEnd w then 'e' :: w
    else match w with
      | 'i' :: rest => 'y' :: rest
      | _ => w

/-! ## Adverbs -/

/-- Makes an adverb of an adjective. -/
def addLy (w : List Char) : List Char :=
  let stem :=
    match w with
    | 'l' :: 'l' :: rest => 'l' :: rest
    | 'e' :: y :: rest => if isVowel y then y :: rest else w
    | 'y' :: rest => 'i' :: rest
    | _ => w
  'y' :: 'l' :: stem

/-- Whether a word is one syllable that ends in a single vowel and an l, which was doubled before. -/
def lostL : List Char → Bool
  | 'l' :: v :: w => isVowel v && !endsInVowel w && vowelGroups false ('l' :: v :: w) == 1
  | _ => false

/-- Undoes `addLy` on a word whose last two letters have been cut off. -/
def restoreAdjective (w : List Char) : List Char :=
  match w with
  | 'i' :: rest => 'y' :: rest
  | _ =>
    if lostL w then 'l' :: w
    else match w with
      | 'a' :: _ => 'e' :: w
      | 'e' :: _ => 'e' :: w
      | 'o' :: _ => 'e' :: w
      | 'u' :: _ => 'e' :: w
      | _ => w

/-! ## On words -/

/-- A rule on letters from the last to the first as a rule on words. -/
def fromEnd (rule : List Char → List Char) (word : String) : String :=
  String.ofList (rule word.toList.reverse).reverse

/-- Plural of a noun or present tense of a verb. -/
def withS (word : String) : String := fromEnd addS word

/-- Noun of a plural or verb of a present tense form. -/
def withoutS (word : String) : String := fromEnd removeS word

/-- A word with an ending that starts with a vowel. -/
def withEnding (word ending : String) : Except Fault String :=
  (addVowel word.toList.reverse ending.toList).map fun w => String.ofList w.reverse

/-- The word that an ending of `n` letters was added to. -/
def withoutEnding (word : String) (n : Int) : String :=
  fromEnd restore (String.ofList (Text.upTo (-n) word.toList))

/-- Adverb of an adjective. -/
def withLy (word : String) : String := fromEnd addLy word

/-- Adjective of an adverb. -/
def withoutLy (word : String) : String :=
  fromEnd restoreAdjective (String.ofList (Text.upTo (-2) word.toList))

/-- Whether a word ends in a text. -/
def endsWith (word ending : String) : Bool :=
  ending.toList.reverse.isPrefixOf word.toList.reverse

end Utterance.Suffix
