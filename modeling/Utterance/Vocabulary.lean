import Utterance.Grammar
import Utterance.Text.Number

/-!
# Vocabularies

The words that are known, in lower case and sorted into bins by length. The last bin holds all words
that are too long for the others. A plain number is known without being stored.
-/

namespace Utterance

/-- A list of known words. -/
structure Vocabulary where
  /-- The words by length: bin `i` holds those of `i + 1` characters, the last bin the longer ones,
  too. -/
  bins : List (List String)
  two_le_bins : 2 ≤ bins.length
  /-- Whether a repair may change a letter. -/
  substitute : Bool := false
  /-- What the last repair replaced, and by what. -/
  corrections : List (String × String) := []
  /-- The text of the last guess, with its unknown words in parentheses. -/
  marked : String := ""
  /-- The longest unknown word of the last guess. -/
  longestUnknown : String := ""

namespace Vocabulary

/-- A vocabulary without words. It needs two bins. -/
def ofBins (n : Int) (substitute : Bool) : Except Fault Vocabulary :=
  if h : n < 2 then .error (.refused (.fewBins n))
  else
    .ok { bins := List.replicate n.toNat [], two_le_bins := by simp; omega, substitute }

/-! ## Bins -/

/-- Number of bins. -/
def binCount (v : Vocabulary) : Nat := v.bins.length

/-- Number of the bin for words of a length; there is none for the empty word. -/
def binOf (v : Vocabulary) (length : Nat) : Int := (min length v.binCount : Int) - 1

/-- The words in the bin for a length. -/
def bin (v : Vocabulary) (length : Nat) : List String := v.bins.getD (v.binOf length).toNat []

/-- The vocabulary with the bin for a length changed. -/
def modifyBin (v : Vocabulary) (length : Nat) (f : List String → List String) : Vocabulary :=
  { v with
    bins := v.bins.modify (v.binOf length).toNat f
    two_le_bins := by simpa using v.two_le_bins }

/-- All words in the order of the bins. -/
def words (v : Vocabulary) : List String := v.bins.flatten

/-- Number of words. -/
def size (v : Vocabulary) : Nat := v.words.length

/-- The vocabulary without words. -/
def clear (v : Vocabulary) : Vocabulary :=
  { v with
    bins := v.bins.map fun _ => []
    two_le_bins := by simpa using v.two_le_bins }

/-! ## Words -/

/-- The stored form of a word. -/
def lookup (v : Vocabulary) (word : String) : Option String :=
  if word.isEmpty then none
  else
    let stored := Text.lower word
    if (v.bin word.length).contains stored then some stored else none

/-- Whether a word is stored or is a plain number. -/
def known (v : Vocabulary) (word : String) : Bool :=
  !word.isEmpty && (Text.isNumber word || (v.lookup word).isSome)

/-- Adds a word. The result tells whether it is new; the wildcard is no word. -/
def add (v : Vocabulary) (word : String) : Vocabulary × Bool :=
  if word.isEmpty || word == Step.wildcard || v.known word then (v, false)
  else (v.modifyBin word.length (· ++ [Text.lower word]), true)

/-- Removes a word. The result tells whether it was there. -/
def remove (v : Vocabulary) (word : String) : Vocabulary × Bool :=
  let stored := Text.lower word
  if word.isEmpty || !(v.bin word.length).contains stored then (v, false)
  else (v.modifyBin word.length (·.erase stored), true)

/-- Adds words one after the other. The result is the number of new ones. -/
def addAll (v : Vocabulary) (words : List String) : Vocabulary × Nat :=
  words.foldl
    (fun (v, n) word =>
      let (v, new) := v.add word
      (v, if new then n + 1 else n))
    (v, 0)

/-- Replaces the words by those of a grammar. The result is their number. -/
def harvest (v : Vocabulary) (g : Grammar) : Outcome Vocabulary Nat :=
  let (v, count) := v.clear.addAll g.terminals
  ⟨v, .ok count,
    [Topic.harvest.entry ("Harvested " ++ toString count ++ " words from grammar")]⟩

/-! ## Files -/

/-- Texts on lines of their own. -/
def asLines (xs : List String) : String := String.join (xs.map (· ++ "\n"))

/-- Writes the words to a file. The result is their number. -/
def writeWords (v : Vocabulary) (files : Files) (path : String) : Outcome Files Nat :=
  match files.write (.ofString path) (asLines v.words) with
  | .ok files => ⟨files, .ok v.size, []⟩
  | .error e => ⟨files, .error e, []⟩

end Vocabulary

/-! ## Orphans -/

namespace Grammar

/-- The heads that a sentence or another rule leads to, in lower case. -/
def usedHeads (g : Grammar) : List String :=
  "toplevel" :: g.topHeads.map Text.lower
    ++ g.productions.toList.flatMap fun p =>
      (p.steps.filter (·.nonterminal)).map fun s => Text.lower s.symbol

/-- The heads that nothing leads to. -/
def orphans (g : Grammar) : List String :=
  let used := g.usedHeads
  g.heads.filter fun h => !used.contains (Text.lower h)

/-- Writes the heads that nothing leads to to a file. The result is their number. -/
def writeOrphans (g : Grammar) (files : Files) (path : String) : Outcome Files Nat :=
  match files.write (.ofPath (.ofString path)) (Vocabulary.asLines g.orphans) with
  | .ok files => ⟨files, .ok g.orphans.length, []⟩
  | .error e => ⟨files, .error e, []⟩

end Grammar

end Utterance
