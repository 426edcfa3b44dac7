import Utterance.Text.Casing

/-!
# Rules

A rule says that a head may be expanded into a sequence of steps: words, wildcards that match any one
word, and names of other heads.
-/

namespace Utterance

/-! ## Steps -/

/-- One element of an expansion: a word or the name of a head. -/
structure Step where
  symbol : String
  nonterminal : Bool := false
  deriving DecidableEq, Repr, Hashable

namespace Step

/-- The word that stands for any word. -/
def wildcard : String := "#"

/-- Whether a step matches any one word. -/
def isWild (s : Step) : Bool := !s.nonterminal && s.symbol == wildcard

/-- Text of a step: the name of a head stands in angle brackets. -/
def text (s : Step) : String := if s.nonterminal then "<" ++ s.symbol ++ ">" else s.symbol

/-- What is the same in two steps that differ only in case. -/
def folded (s : Step) : Step := ⟨Text.lower s.symbol, s.nonterminal⟩

end Step

/-! ## Status -/

/-- Whether a rule may be used. -/
inductive Status where
  /-- Never used. -/
  | disabled
  /-- Usable inside other rules. -/
  | active
  /-- May also start a sentence. -/
  | top
  deriving DecidableEq, Repr

namespace Status

/-- Number of a status. -/
def number : Status → Nat
  | .disabled => 0
  | .active => 1
  | .top => 2

/-- The status with a number. -/
def ofNumber? (n : Int) : Option Status :=
  if n = 0 then some .disabled else if n = 1 then some .active else if n = 2 then some .top else none

/-- Whether rules of this status are used at all. -/
def isUsable (s : Status) : Bool := s != .disabled

end Status

/-! ## Productions -/

/-- Head and steps of a production in lower case: two productions with the same key count as one. -/
structure RuleKey where
  head : String
  steps : List Step
  deriving DecidableEq, Repr, Hashable

/-- A head with one expansion. `id` is its position in the grammar. -/
structure Production where
  id : Nat
  head : String
  steps : List Step
  status : Status := .active
  deriving DecidableEq, Repr

namespace Production

/-- What is the same in two productions that differ only in case. -/
def key (p : Production) : RuleKey := ⟨Text.lower p.head, p.steps.map Step.folded⟩

/-- Text of an expansion. -/
def expansion (p : Production) : String := " ".intercalate (p.steps.map Step.text)

/-- The symbols of an expansion without brackets. -/
def phrase (p : Production) : String := " ".intercalate (p.steps.map (·.symbol))

/-- Text of a production. -/
def text (p : Production) : String := "<" ++ p.head ++ ">  <-- " ++ p.expansion

/-- Whether the expansion is made of fixed words only. -/
def isPhrase (p : Production) : Bool := p.steps.all fun s => !s.nonterminal && !s.isWild

end Production

end Utterance
