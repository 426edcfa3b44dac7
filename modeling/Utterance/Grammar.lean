import Std.Data.HashMap
import Std.Data.HashSet
import Utterance.Outcome
import Utterance.Rule
import Utterance.Rule.Sugar
import Utterance.Storage

/-!
# Grammars

A grammar is a sequence of productions without repetitions up to case, together with an index from
heads to productions and the attention phrases, the first expansions of the head `ATTN`.
-/

namespace Utterance

/-- An ordered collection of productions. -/
structure Grammar where
  /-- The largest number of dictated words that one `*` or `+` stands for. -/
  dictation : Int := 5
  /-- The largest number of attention phrases that are remembered. -/
  maxAlerts : Int := 10
  /-- The first file that was loaded. -/
  path : Option Path := none
  /-- The attention phrases. -/
  alerts : List String := []
  productions : Array Production := #[]
  /-- The keys of all productions. -/
  keys : Std.HashSet RuleKey := ∅
  /-- The positions of the productions of each head in lower case, in ascending order. -/
  byHead : Std.HashMap String (Array Nat) := ∅

namespace Grammar

/-- The head whose expansions are attention phrases. -/
def attention : String := "ATTN"

/-! ## Queries -/

/-- Number of productions. -/
def size (g : Grammar) : Nat := g.productions.size

/-- Whether a head has a production. -/
def hasHead (g : Grammar) (head : String) : Bool := g.byHead.contains (Text.lower head)

/-- The productions of a head in any case. -/
def rulesFor (g : Grammar) (head : String) : List Production :=
  (g.byHead.getD (Text.lower head) #[]).toList.filterMap fun i => g.productions[i]?

/-- `xs` without repetitions, each at its first place. -/
def distinct (xs : List String) : List String :=
  (xs.foldl (fun seen x => if seen.contains x then seen else x :: seen) []).reverse

/-- The heads as they are first spelled, in order of first appearance. -/
def heads (g : Grammar) : List String := distinct (g.productions.toList.map (·.head))

/-- The expansions of a head. -/
def expansions (g : Grammar) (head : String) : List String :=
  (g.rulesFor head).map Production.expansion

/-- The heads that may start a sentence. -/
def topHeads (g : Grammar) : List String :=
  g.heads.filter fun h => (g.rulesFor h).any (·.status == .top)

/-- The words of all productions, in order and with repetitions. -/
def terminals (g : Grammar) : List String :=
  g.productions.toList.flatMap fun p =>
    (p.steps.filter (!·.nonterminal)).map (·.symbol)

/-- The productions that are not disabled. -/
def usable (g : Grammar) : List Production :=
  g.productions.toList.filter fun p => p.status.isUsable

/-- Number of productions that are not disabled. -/
def ruleCount (g : Grammar) : Nat := g.usable.length

/-- Texts of the productions that are not disabled. -/
def listRules (g : Grammar) : List String := g.usable.map Production.text

/-- One line about the grammar. -/
def summary (g : Grammar) : String :=
  if g.ruleCount = 0 then "No grammar rules loaded!"
  else toString g.ruleCount ++ " grammar rules from: " ++ (g.path.map Path.text).getD "None"

/-! ## Adding -/

/-- What keeps a plain expansion from becoming a production. -/
inductive Defect where
  /-- A token has a bracket on one side only, or nothing between its brackets. -/
  | bracket (token : String)
  /-- The expansion starts with its own head. -/
  | startsItself
  deriving DecidableEq, Repr

/-- Wording of a defect of an expansion of `head`. -/
def Defect.message (head : String) : Defect → String
  | .bracket token => "unmatched bracket in '" ++ token ++ "', expansion skipped"
  | .startsItself => "<" ++ head ++ "> starts its own expansion, dropped"

/-- The topic of a note on a defect. -/
def Defect.topic : Defect → Topic
  | .bracket _ => .unmatchedBracket
  | .startsItself => .startsItself

/-- An opening bracket. -/
def isOpening (c : Char) : Bool := c == '[' || c == '<'

/-- A closing bracket. -/
def isClosing (c : Char) : Bool := c == ']' || c == '>'

/-- The step that a token denotes. -/
def readStep (token : String) : Except Defect Step :=
  let cs := token.toList
  let opens := cs.head?.any isOpening
  let closes := cs.getLast?.any isClosing
  if opens || closes then
    if opens && closes && 3 ≤ cs.length then
      .ok ⟨String.ofList (cs.drop 1).dropLast, true⟩
    else .error (.bracket token)
  else .ok ⟨token, false⟩

/-- The steps that a plain expansion of `head` denotes; none if it is blank. -/
def readSteps (head line : String) : Except Defect (List Step) := do
  let steps ← (Text.words line).mapM readStep
  match steps with
  | s :: _ =>
    if s.nonterminal && Text.lower s.symbol == Text.lower head then throw .startsItself
  | [] => pure ()
  return steps

/-- The grammar with a production at the end. -/
def push (g : Grammar) (head : String) (steps : List Step) (status : Status) : Grammar :=
  let p : Production := ⟨g.productions.size, head, steps, status⟩
  let name := Text.lower head
  { g with
    productions := g.productions.push p
    keys := g.keys.insert p.key
    byHead := g.byHead.insert name ((g.byHead.getD name #[]).push p.id) }

/-- Whether the grammar has a production with these steps, up to case. -/
def hasRule (g : Grammar) (head : String) (steps : List Step) : Bool :=
  g.keys.contains (Production.key ⟨0, head, steps, .active⟩)

/-- Remembers a new expansion of `head` if it is an attention phrase and there is room. -/
def remember (g : Grammar) (head : String) (steps : List Step) : Grammar :=
  if head = attention && (g.alerts.length : Int) < g.maxAlerts then
    { g with alerts := g.alerts ++ [" ".intercalate (steps.map (·.symbol))] }
  else g

/-- A grammar being extended: how many productions are new, and the notes so far. -/
structure Growth where
  grammar : Grammar
  added : Nat := 0
  notes : Journal := []

/-- Adds one plain expansion unless it is blank, defective or there already. -/
def Growth.addPlain (head whence : String) (s : Growth) (line : String) : Growth :=
  match readSteps head line with
  | .error d =>
    { s with notes := s.notes ++ [d.topic.entry (whence ++ ": " ++ d.message head)] }
  | .ok steps =>
    if steps.isEmpty || s.grammar.hasRule head steps then s
    else
      { s with
        grammar := (s.grammar.remember head steps).push head steps .active
        added := s.added + 1 }

/-- Adds every plain expansion that a sugared one stands for. Notes name the place `whence`, or the
head if it is empty. -/
def expand (g : Grammar) (head line whence : String) : Growth :=
  let place := if whence.isEmpty then head else whence
  if !Sugar.isNested line.toList then
    { grammar := g
      notes := [Topic.unbalanced.entry
        (place ++ ": unbalanced parentheses in '" ++ line ++ "' skipped")] }
  else
    ((Sugar.variants g.dictation.toNat line.toList).map String.ofList).foldl
      (Growth.addPlain head place) { grammar := g }

/-- Teaches a new expansion of a head. -/
def extend (g : Grammar) (head expansion : String) : Growth :=
  let s := g.expand head expansion ("extend " ++ head)
  if s.added = 0 then s
  else
    { s with
      notes := s.notes ++ [Topic.extension.entry
        ("Extended <" ++ head ++ "> with '" ++ expansion ++ "' (" ++ toString s.added ++ " new)")] }

/-! ## Removing -/

/-- The grammar with exactly the given productions, renumbered. -/
def withProductions (g : Grammar) (ps : List Production) : Grammar :=
  ps.foldl (fun g p => g.push p.head p.steps p.status)
    { g with productions := #[], keys := ∅, byHead := ∅ }

/-- Removes the productions that a sugared expansion of a head would add. -/
def retract (g : Grammar) (head expansion : String) : Growth :=
  let probe := Grammar.expand { dictation := g.dictation, maxAlerts := 0 } head expansion
    ("retract " ++ head)
  let doomed := probe.grammar.productions.toList
  -- status and order of what stays are kept, positions are not
  let keep := g.productions.toList.filter fun p => !probe.grammar.keys.contains p.key
  let removed := g.productions.size - keep.length
  if removed = 0 then { grammar := g, notes := probe.notes }
  else
    let g := g.withProductions keep
    let g :=
      if head = attention then
        { g with alerts := g.alerts.filter fun a => !(doomed.map Production.phrase).contains a }
      else g
    { grammar := g, added := removed, notes := probe.notes }

/-- The grammar without productions, attention phrases and path. -/
def clear (g : Grammar) : Grammar := { dictation := g.dictation, maxAlerts := g.maxAlerts }

/-! ## Status -/

/-- Whether a production has a head, up to case; every production has the head nothing. -/
def matchesHead (head : Option String) (p : Production) : Bool :=
  match head with
  | none => true
  | some h => Text.lower p.head == Text.lower h

/-- Sets the status of every production of a head, or of all. The result tells whether there is
one. -/
def setStatus (g : Grammar) (head : Option String) (status : Status) : Grammar × Bool :=
  ({ g with
      productions := g.productions.map fun p =>
        if matchesHead head p then { p with status } else p },
    g.productions.any (matchesHead head))

/-- Sets a status by its number, which is looked at only if there is a production to set it for. -/
def setStatusNumber (g : Grammar) (head : Option String) (n : Int) : Outcome Grammar Bool :=
  match Status.ofNumber? n with
  | some status =>
    let (g, found) := g.setStatus head status
    ⟨g, .ok found, []⟩
  | none =>
    if g.productions.any (matchesHead head) then ⟨g, .error (.refused (.ruleStatus n)), []⟩
    else ⟨g, .ok false, []⟩

/-- Lets a head start a sentence. -/
def enable (g : Grammar) (head : Option String) : Grammar × Bool := g.setStatus head .top

/-- Keeps a head from starting a sentence. -/
def disable (g : Grammar) (head : Option String) : Grammar × Bool := g.setStatus head .active

/-! ## Writing -/

/-- The productions that are written under each head. -/
def groups (g : Grammar) : List (String × List Production) :=
  (g.heads.map fun h => (h, (g.rulesFor h).filter fun p => p.status.isUsable)).filter
    (!·.2.isEmpty)

/-- Text of a group of productions in a grammar file. -/
def groupText (head : String) (rules : List Production) : String :=
  "=[" ++ head ++ "]\n" ++ String.join (rules.map fun p => "  " ++ p.expansion ++ "\n") ++ "\n"

/-- Writes the productions that are not disabled, grouped by head. The result is the number of lines
written, or nothing if the file cannot be written. -/
def dump (g : Grammar) (files : Files) (path : String) : Outcome Files (Option Nat) :=
  let groups := g.groups
  let count := (groups.flatMap fun (_, rules) => rules).length
  match files.write (.ofString path) (String.join (groups.map fun (h, rules) => groupText h rules))
  with
  | .ok files =>
    ⟨files, .ok (some count),
      [Topic.writtenRules.entry ("Wrote " ++ toString count ++ " rules to " ++ path)]⟩
  | .error (.file e) =>
    ⟨files, .ok none,
      [Topic.unwrittenRules.entry ("Could not write rules to " ++ path ++ ": " ++ e.message)]⟩
  | .error e => ⟨files, .error e, []⟩

end Grammar

end Utterance
