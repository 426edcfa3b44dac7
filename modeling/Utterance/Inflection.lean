import Utterance.Inflection.Irregular
import Utterance.Inflection.Suffix

/-!
# Inflection

From a base word to a form and back. Irregular forms come first, the suffix rules second; of a phrase
only the first word is inflected, except that a possessive ending goes to the last.
-/

namespace Utterance.Irregulars

/-! ## Base to form -/

/-- The regular form of a word; nothing if the tags ask for no form. -/
def regularForm (word : String) (tags : Tags) : Option String :=
  let ending (e : String) : Option String := (Suffix.withEnding word e).toOption
  if tags.hasAny Tags.nounTags then
    if tags.has .singular || tags.has .mass then some word
    else if tags.has .plural then some (Suffix.withS word)
    else none
  else if tags.hasAny Tags.verbTags then
    if tags.has .imperative then some word
    else if tags.has .present then some (Suffix.withS word)
    else if tags.has .progressive then ending "ing"
    else if tags.has .past then ending "ed"
    else none
  else if tags.hasAny Tags.adjectiveTags then
    if tags.has .property then some word
    else if tags.has .comparative then ending "er"
    else if tags.has .superlative then ending "est"
    else if tags.has .adverb then some (Suffix.withLy word)
    else none
  else none

/-- The irregular form of a word for the first tag that may have one. -/
def irregularForm (m : Irregulars) (word : String) (tags : Tags) : Option String :=
  tags.inflection?.bind (m.surface? word)

/-- The form of a single word. -/
def wordForm (m : Irregulars) (word : String) (tags : Tags) : Option String :=
  match m.irregularForm word tags with
  | some form => some form
  | none => regularForm word tags

/-- The form of a word or phrase, apart from possessives. -/
def phraseForm (m : Irregulars) (base : String) (tags : Tags) : Option String :=
  match m.irregularForm base tags with
  | some form => some form
  | none =>
    match Text.cutAt ' ' base.toList with
    | (head, some tail) =>
      (m.wordForm (String.ofList head) tags).map fun w => w ++ " " ++ String.ofList tail
    | (_, none) => regularForm base tags

/-- The possessive of a word or phrase, or of its plural. -/
def possessiveForm (m : Irregulars) (base : String) (tags : Tags) : Option String :=
  let plural := tags.has .plural
  match m.surface? base .possessive, plural with
  | some form, false => some form
  | none, false => some (base ++ "'s")
  | _, true =>
    (m.phraseForm base (.single .plural)).map fun stem =>
      if Suffix.endsWith stem "s" then stem ++ "'" else stem ++ "'s"

/-- The form of a word or phrase for a set of tags; nothing if the tags ask for no form. -/
def form (m : Irregulars) (base : String) (tags : Tags) : Option String :=
  if tags.has .possessive then m.possessiveForm base tags else m.phraseForm base tags

/-- The form of a word or phrase for a set of tags, which must tell its class. -/
def surface (m : Irregulars) (base : String) (tags : Tags) : Except Fault (Option String) := do
  tags.requireClass
  return m.form base tags

/-! ## Form to base -/

/-- The base of a regular form; nothing if it lacks the ending that the tags call for. -/
def regularBase (word : String) (tags : Tags) : Option String :=
  let cut (e : String) : Option String :=
    if e.length < word.length && Suffix.endsWith word e then
      some (Suffix.withoutEnding word e.length)
    else none
  if tags.hasAny Tags.nounTags then
    if tags.has .singular || tags.has .mass then some word
    else if tags.has .plural then some (Suffix.withoutS word)
    else none
  else if tags.hasAny Tags.verbTags then
    if tags.has .imperative then some word
    else if tags.has .present then some (Suffix.withoutS word)
    else if tags.has .progressive then cut "ing"
    else if tags.has .past then cut "ed"
    else none
  else if tags.hasAny Tags.adjectiveTags then
    if tags.has .property then some word
    else if tags.has .comparative then cut "er"
    else if tags.has .superlative then cut "est"
    else if tags.has .adverb then
      if 2 < word.length && Suffix.endsWith word "ly" then some (Suffix.withoutLy word) else none
    else none
  else none

/-- The first base word with an irregular form for the first tag that may have one. -/
def irregularBase (m : Irregulars) (word : String) (tags : Tags) : Option String :=
  tags.inflection?.bind (m.base? word)

/-- The base of a single word. -/
def wordBase (m : Irregulars) (word : String) (tags : Tags) : Option String :=
  match m.irregularBase word tags with
  | some base => some base
  | none => regularBase word tags

/-- The base of a word or phrase, apart from possessives. -/
def phraseBase (m : Irregulars) (word : String) (tags : Tags) : Option String :=
  match m.irregularBase word tags with
  | some base => some base
  | none =>
    match Text.cutAt ' ' word.toList with
    | (head, some tail) =>
      (m.wordBase (String.ofList head) tags).map fun w => w ++ " " ++ String.ofList tail
    | (_, none) => regularBase word tags

/-- A possessive without its ending. -/
def withoutPossessive (word : String) : Option String :=
  if Suffix.endsWith word "'s" then some (String.ofList (Text.upTo (-2) word.toList))
  else if Suffix.endsWith word "s'" then some (String.ofList (Text.upTo (-1) word.toList))
  else none

/-- The base of a possessive, or of a plural in the possessive. -/
def possessiveBase (m : Irregulars) (word : String) (tags : Tags) : Option String :=
  match m.base? word .possessive with
  | some base => some base
  | none =>
    (withoutPossessive word).bind fun stem =>
      if tags.has .plural then m.phraseBase stem (.single .plural) else some stem

/-- The base of a form for a set of tags; nothing if it lacks the ending that they call for. -/
def baseForm (m : Irregulars) (word : String) (tags : Tags) : Option String :=
  if tags.has .possessive then m.possessiveBase word tags else m.phraseBase word tags

/-- The base of a form for a set of tags, which must tell its class. -/
def base (m : Irregulars) (word : String) (tags : Tags) : Except Fault (Option String) := do
  tags.requireClass
  return m.baseForm word tags

/-! ## Slots -/

/-- The nouns that stand for any thing. -/
def fillerNouns : List String := ["thing", "something"]

/-- The base word and tags of the value of a slot; nothing for slots that hold no open-class word and
for nouns that stand for any thing. -/
def lexicalBase (m : Irregulars) (slot value : String) : Option (String × Tags) :=
  if Text.upper slot = "SAY" then some (value, .single .imperative)
  else
    let tags := Tags.ofCategory slot
    if tags = Tags.none then none
    else if tags.hasAny Tags.nounTags && fillerNouns.contains value then none
    else (m.baseForm value tags).map fun word => (word, tags)

end Utterance.Irregulars
