import Utterance.Grammar
import Utterance.Lexicon

/-!
# The lexicon in a grammar

A loaded grammar holds a lexicon, too: the plain phrases under the heads that words are derived from.
-/

namespace Utterance.Lexicon

/-- The plain phrases of a head. -/
def phrases (g : Grammar) (head : String) : List String :=
  ((g.rulesFor head).filter Production.isPhrase).map Production.phrase

/-- The base sections that a grammar holds. -/
def basesOf (g : Grammar) : Sections :=
  (sources.map fun head => (head, phrases g head)).filter fun (_, words) => !words.isEmpty

/-- Inflects the plain phrases of a grammar. -/
def deriveLoaded (m : Irregulars) (g : Grammar) : Report × Journal :=
  derive m (basesOf g) false false

end Utterance.Lexicon
