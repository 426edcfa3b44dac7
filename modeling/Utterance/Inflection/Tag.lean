import Utterance.Fault
import Utterance.Text.Blank
import Utterance.Text.Casing

/-!
# Inflection tags

What a form of a word expresses: number and possession of nouns, tense of verbs, degree of adjectives
and a few marks of noun phrases. A set of tags is a bit mask.
-/

namespace Utterance

/-! ## Single tags -/

/-- What a form expresses. -/
inductive Tag where
  | definite
  | alternative
  | absent
  | singular
  | plural
  | mass
  | property
  | comparative
  | superlative
  | imperative
  | present
  | past
  | progressive
  | future
  | infinitive
  | possessive
  | adverb
  deriving DecidableEq, Repr

namespace Tag

/-- All tags, lowest bit first. -/
def all : List Tag :=
  [.definite, .alternative, .absent, .singular, .plural, .mass, .property, .comparative,
    .superlative, .imperative, .present, .past, .progressive, .future, .infinitive, .possessive,
    .adverb]

/-- Position of a tag in a bit mask. -/
def index : Tag → Nat
  | .definite => 0
  | .alternative => 1
  | .absent => 2
  | .singular => 3
  | .plural => 4
  | .mass => 5
  | .property => 6
  | .comparative => 7
  | .superlative => 8
  | .imperative => 9
  | .present => 10
  | .past => 11
  | .progressive => 12
  | .future => 13
  | .infinitive => 14
  | .possessive => 15
  | .adverb => 16

/-- Number of the set that holds only this tag. -/
def bit (t : Tag) : Nat := Nat.pow 2 t.index

/-- Name of a tag in files and messages. -/
def name : Tag → String
  | .definite => "def"
  | .alternative => "alt"
  | .absent => "nzero"
  | .singular => "nsing"
  | .plural => "npl"
  | .mass => "nmass"
  | .property => "aprop"
  | .comparative => "acomp"
  | .superlative => "asup"
  | .imperative => "vimp"
  | .present => "vpres"
  | .past => "vpast"
  | .progressive => "vprog"
  | .future => "vfut"
  | .infinitive => "vinf"
  | .possessive => "npos"
  | .adverb => "adv"

/-- The tag with a name, in any case and with blanks around it. -/
def ofName? (name : String) : Option Tag :=
  let key := Text.lower (Text.trim name)
  all.find? fun t => t.name == key

/-- The tag with a name, which must be one. -/
def ofName (name : String) : Except Fault Tag :=
  match ofName? name with
  | some t => .ok t
  | none => .error (.refused (.unknownTag name))

end Tag

/-! ## Sets of tags -/

/-- A set of tags. Bits above those of the tags are kept but mean nothing. -/
structure Tags where
  bits : Nat
  deriving DecidableEq, Repr

namespace Tags

/-- The empty set. -/
def none : Tags := ⟨0⟩

/-- The set of one tag. -/
def single (t : Tag) : Tags := ⟨t.bit⟩

/-- The set of the given tags, which are distinct. -/
def ofList (ts : List Tag) : Tags := ⟨(ts.map Tag.bit).foldl (· ||| ·) 0⟩

/-- Whether a tag is in a set. -/
def has (ts : Tags) (t : Tag) : Bool := ts.bits.testBit t.index

/-- Whether one of the given tags is in a set. -/
def hasAny (ts : Tags) (among : List Tag) : Bool := among.any ts.has

/-- Number of sets of tags. -/
def size : Nat := Nat.pow 2 Tag.all.length

/-- The set with a number. A negative number is the complement of a set, taken within the bits of the
tags or, if it needs more, within its own. -/
def ofInt (n : Int) : Tags :=
  if 0 ≤ n then ⟨n.toNat⟩
  else
    let width := max Tag.all.length (n.natAbs.log2 + 1)
    if n.natAbs ≤ size then ⟨size - n.natAbs⟩ else ⟨Nat.pow 2 width - n.natAbs⟩

/-- The lowest tag of the set with number `n`, read as an infinite row of bits. -/
def lowest? (n : Int) : Option Tag := Tag.all.find? fun t => n / t.bit % 2 == 1

/-- Name of the lowest tag of a set. -/
def name? (ts : Tags) : Option String := (lowest? ts.bits).map Tag.name

/-- A set as messages show it: the names of its tags, then whatever bits are left, then its number. -/
def shown (ts : Tags) : String :=
  let names := (Tag.all.filter ts.has).map fun t => Text.upper t.name
  let left := ts.bits / size * size
  let names := if names.isEmpty || left = 0 then names else names ++ [toString left]
  let label := if names.isEmpty then "" else "." ++ "|".intercalate names
  "<MorphTag" ++ label ++ ": " ++ toString ts.bits ++ ">"

/-! ## Word classes -/

/-- The tags of nouns. -/
def nounTags : List Tag := [.singular, .plural, .mass, .possessive]

/-- The tags of verbs. -/
def verbTags : List Tag := [.imperative, .present, .past, .progressive]

/-- The tags of adjectives and their adverbs. -/
def adjectiveTags : List Tag := [.property, .comparative, .superlative, .adverb]

/-- Whether a set tells the class of a word. -/
def hasClass (ts : Tags) : Bool := ts.hasAny (nounTags ++ verbTags ++ adjectiveTags)

/-- Fails on a set that does not tell the class of a word. -/
def requireClass (ts : Tags) : Except Fault Unit :=
  if ts.hasClass then .ok () else .error (.refused (.noWordClass ts.shown))

/-- The tags of the word that a category of a grammar holds; the empty set for other categories. -/
def ofCategory (category : String) : Tags :=
  let table : List (String × Tag) :=
    [("AKO", .singular), ("AKO-S", .plural), ("AKO-P", .possessive), ("NAME", .singular),
      ("NAME-P", .possessive), ("ACT", .imperative), ("ACT-S", .present), ("ACT-D", .past),
      ("ACT-G", .progressive), ("HQ", .property), ("HQ-ER", .comparative),
      ("HQ-EST", .superlative), ("MOD", .adverb)]
  match table.lookup (Text.upper category) with
  | some t => single t
  | _ => none

end Tags

end Utterance
