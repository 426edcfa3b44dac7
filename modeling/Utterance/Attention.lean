import Utterance.AssocList
import Utterance.Fault
import Utterance.Text.Alphabetic

/-!
# Attention

When an utterance wakes the system: always, or if an attention phrase is said somewhere, at the start
or alone. The question is asked twice, of the raw text and of the association list.
-/

namespace Utterance

/-! ## Modes -/

/-- When an utterance wakes the system, from the most to the least willing. -/
inductive AttentionMode where
  /-- Every utterance does. -/
  | always
  /-- An attention phrase somewhere does. -/
  | anywhere
  /-- An attention phrase at the start does. -/
  | start
  /-- An attention phrase and nothing else does. -/
  | only
  deriving DecidableEq, Repr

namespace AttentionMode

/-- All modes. -/
def all : List AttentionMode := [.always, .anywhere, .start, .only]

/-- Number of a mode. -/
def number : AttentionMode → Nat
  | .always => 0
  | .anywhere => 1
  | .start => 2
  | .only => 3

/-- Name of a mode. -/
def name : AttentionMode → String
  | .always => "ALWAYS"
  | .anywhere => "ANYWHERE"
  | .start => "START"
  | .only => "ONLY"

/-- Name of a mode on the command line. -/
def option (m : AttentionMode) : String := Text.lower m.name

/-- The mode with a number. -/
def ofNumber (n : Int) : Except Fault AttentionMode :=
  match all.find? fun m => (m.number : Int) == n with
  | some m => .ok m
  | none => .error (.refused (.attentionMode n))

end AttentionMode

namespace Attention

/-! ## In a text -/

/-- A letter of the basic alphabet, or one of the four other letters that differ from such a letter
only in case. -/
def isBasicLetter (c : Char) : Bool :=
  c.isAlpha || [0x130, 0x131, 0x17F, 0x212A].contains c.toNat

/-- A text without a leading "hey" and what separates it from the next letter. -/
def dropHey : List Char → List Char
  | a :: b :: c :: rest =>
    if a.toLower == 'h' && b.toLower == 'e' && c.toLower == 'y' && !rest.head?.any isBasicLetter then
      rest.dropWhile (!isBasicLetter ·)
    else a :: b :: c :: rest
  | cs => cs

/-- Whether two texts are the same up to case. -/
def same (cs ds : List Char) : Bool := Text.sameFolded (String.ofList cs) (String.ofList ds)

/-- Whether a text starts with a phrase, up to case, that is not continued by a letter. -/
def startsWith (cs phrase : List Char) : Bool :=
  same (cs.take phrase.length) phrase && !(cs.drop phrase.length).head?.any Text.isAlpha

/-- A text without its last character if that is no letter; a single character stays. -/
def dropStop (cs : List Char) : List Char :=
  if 1 < cs.length && !cs.getLast?.any Text.isAlpha then cs.dropLast else cs

/-- Whether a text ends with a phrase, up to case, that does not continue a word. -/
def endsWith (cs phrase : List Char) : Bool :=
  let front := cs.take (cs.length - phrase.length)
  phrase.length ≤ cs.length && same (cs.drop (cs.length - phrase.length)) phrase
    && !front.getLast?.any Text.isAlpha

/-- Whether a text calls for attention by one of the phrases. If it must stand alone, the first phrase
that the text starts with decides. -/
def inText (text : String) (phrases : List String) (mode : AttentionMode) : Bool :=
  let cs := text.toList
  let phrases := phrases.map String.toList
  let leading := phrases.find? (startsWith (dropHey cs))
  match mode with
  | .always => true
  | .anywhere =>
    !cs.isEmpty && (leading.isSome || phrases.any (endsWith (dropStop cs)))
  | .start => !cs.isEmpty && leading.isSome
  | .only =>
    -- what follows the phrase may be punctuation and digits, but no word
    !cs.isEmpty && leading.any fun phrase =>
      !((dropHey cs).drop phrase.length).any Text.isAlpha

/-! ## In an association list -/

/-- The slot that holds an attention phrase. -/
def slot : String := "ATTN"

/-- Whether an entry may come before a leading attention phrase. -/
def mayLead (entry : String) : Bool :=
  AssocList.isMarker entry || ["YES", "NO", "HQ"].contains (AssocList.slotOf entry)

/-- Entries after those that may lead and at most one kind of thing. -/
def dropLead (items : List String) : List String :=
  match items.dropWhile mayLead with
  | e :: rest => if AssocList.slotOf e == "AKO" then rest else e :: rest
  | [] => []

/-- Whether an association list calls for attention. -/
def inList (a : AssocList) (mode : AttentionMode) : Bool :=
  match mode with
  | .always => true
  | .anywhere => a.hasSlot slot false
  | .start =>
    a.hasSlot slot false && (dropLead a.entries).head?.any (AssocList.slotOf · == slot)
  | .only =>
    a.hasSlot slot false &&
      match dropLead a.entries with
      | e :: rest => AssocList.slotOf e == slot && rest.all AssocList.isClosing
      | [] => false

end Attention

end Utterance
