import Utterance.Attention
import Utterance.Datum
import Utterance.Outcome
import Utterance.Vocabulary.Guess

/-!
# Speech acts

What an utterance does: it asks, commands, tells, greets and so on. The markers of its association
list decide. Only if the list is empty are the unknown words and the raw text looked at.
-/

namespace Utterance

/-! ## Acts -/

/-- What an utterance does. -/
inductive SpeechAct where
  | huh
  | hail
  | greet
  | farewell
  | unknownWord
  | fact
  | command
  | question
  | reviseOperator
  | newRule
  | newOperator
  deriving DecidableEq, Repr

namespace SpeechAct

/-- All acts in the order of their numbers. -/
def all : List SpeechAct :=
  [.huh, .hail, .greet, .farewell, .unknownWord, .fact, .command, .question, .reviseOperator,
    .newRule, .newOperator]

/-- Number of an act. -/
def number : SpeechAct → Nat
  | .huh => 0
  | .hail => 1
  | .greet => 2
  | .farewell => 3
  | .unknownWord => 4
  | .fact => 5
  | .command => 6
  | .question => 7
  | .reviseOperator => 8
  | .newRule => 9
  | .newOperator => 10

/-- Label of an act. -/
def label : SpeechAct → String
  | .huh => "huh"
  | .hail => "hail"
  | .greet => "greet"
  | .farewell => "farewell"
  | .unknownWord => "unk-word"
  | .fact => "fact"
  | .command => "command"
  | .question => "question"
  | .reviseOperator => "revise-op"
  | .newRule => "new-rule"
  | .newOperator => "new-op"

/-- A label in capitals, with underscores for hyphens. -/
def labelKey (label : String) : List Char :=
  (Text.upper label).toList.map fun c => if c = '-' then '_' else c

/-- The act with a label, in any case and with hyphens or underscores. -/
def ofLabel (label : String) : Except Fault SpeechAct :=
  match all.find? fun act => labelKey act.label == labelKey label with
  | some act => .ok act
  | none => .error .unknownLabel

end SpeechAct

/-! ## Interpretations -/

/-- What is made of an utterance. -/
structure Interpretation where
  act : SpeechAct := .huh
  alist : AssocList := ⟨""⟩
  text : String
  attention : Bool := false
  polite : Bool := false
  /-- The name by which someone is introduced. -/
  name : Option String := none
  unknown : List String := []
  /-- The longest unknown word. -/
  longestUnknown : Option String := none
  guesses : List Guess := []
  /-- The text after the repair of typing errors. -/
  corrected : Option String := none

namespace Interpretation

/-- The fields of a report about an interpretation. -/
def fields (r : Interpretation) : List (String × Datum) :=
  [("act", .text r.act.label),
    ("alist", .text r.alist.text),
    ("text", .text r.text),
    ("attention", .bool r.attention),
    ("polite", .bool r.polite),
    ("name", .ofOption r.name),
    ("unknown", .texts r.unknown),
    ("oov", .ofOption r.longestUnknown),
    ("guesses", .list (r.guesses.map fun g => .list [.text g.word, .text g.category])),
    ("corrected", .ofOption r.corrected),
    ("code", .int r.act.number)]

/-- The report about an interpretation. -/
def toDatum (r : Interpretation) : Datum := .record r.fields

end Interpretation

/-! ## Classification -/

namespace SpeechAct

/-- The act that a marker stands for. -/
def ofMarker? (marker : String) : Option SpeechAct :=
  let low := Text.lower marker
  let begins (s : String) : Bool := s.toList.isPrefixOf low.toList
  if low == "%rule" then some .newRule
  else if low == "%operator" then some .newOperator
  else if low == "%revise" then some .reviseOperator
  else if low == "!chk" || begins "!find" then some .question
  else if begins "!" then some .command
  else if begins "%" then some .fact
  else none

/-- The markers that open a phrase, without those that only wrap an attention phrase. -/
def markers (items : List String) : List String :=
  items.filter fun e =>
    AssocList.isMarker e && !AssocList.isClosing e && Text.lower e != "%attn"

/-- Whether entries say nothing but an attention phrase. -/
def onlyAttention (items : List String) : Bool :=
  let slots := (items.filter AssocList.isPair).map AssocList.slotOf
  !slots.isEmpty && slots.all (· == Attention.slot) && (markers items).isEmpty

/-- The name that is introduced in a list. -/
def introduced? (a : AssocList) : Option String := do
  let intro ← a.findMarker "$intro"
  intro.slotValue "NAME" false

/-- The act of a list with entries, with the name that is introduced in it if that decides. -/
def ofList (a : AssocList) : SpeechAct × Option String :=
  if a.hasSlot "HELLO" false then (.greet, none)
  else if a.hasSlot "BYE" false then (.farewell, none)
  else if onlyAttention a.entries then (.hail, none)
  else match introduced? a with
    | some name => (.greet, some name)
    | none => (((markers a.entries).findSome? ofMarker?).getD .huh, none)

/-- Classifies an utterance by its association list, its text, its unknown words and the attention
phrases. -/
def classify (alerts : List String) (a : AssocList) (text : String) (unknown : List String) :
    Interpretation × Journal :=
  let base : Interpretation :=
    { alist := a
      text
      unknown
      polite := a.hasSlot "POLITE" false
      attention := a.hasSlot Attention.slot false }
  let r : Interpretation :=
    if a.entries.isEmpty then
      if !unknown.isEmpty then { base with act := .unknownWord }
      else if !alerts.isEmpty && Attention.inText text alerts .only then
        { base with act := .hail, attention := true }
      else base
    else
      let (act, name) := ofList a
      { base with act, name }
  (r, [Topic.classified.entry ("Speech act " ++ r.act.label ++ " for '" ++ text ++ "'")])

end SpeechAct

end Utterance
