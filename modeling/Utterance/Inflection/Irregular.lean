import Utterance.Inflection.Tag
import Utterance.Outcome
import Utterance.Rule.Line
import Utterance.Storage

/-!
# Irregular forms

A table of the forms that no rule produces, kept in the order in which they were entered. Each word
class has room for a fixed number of base words. The table is read from and written to the sections
of a grammar file whose head starts with `xxx`, one form a line:

    man * npl = men
-/

namespace Utterance

/-! ## Word classes -/

/-- A class of words that has irregular forms. -/
inductive WordClass where
  | noun
  | adjective
  | verb
  deriving DecidableEq, Repr

namespace WordClass

/-- All classes, in the order of files. -/
def all : List WordClass := [.noun, .adjective, .verb]

/-- Name of a class in messages. -/
def name : WordClass → String
  | .noun => "noun"
  | .adjective => "adj"
  | .verb => "verb"

/-- The tags whose forms may be irregular, in the order of files. -/
def tags : WordClass → List Tag
  | .noun => [.plural, .possessive]
  | .adjective => [.comparative, .superlative, .adverb]
  | .verb => [.present, .progressive, .past]

end WordClass

namespace Tag

/-- The tags whose forms may be irregular. -/
def inflections : List Tag := WordClass.all.flatMap WordClass.tags

/-- The class of the words whose form with this tag may be irregular. -/
def wordClass? : Tag → Option WordClass
  | .plural => some .noun
  | .possessive => some .noun
  | .comparative => some .adjective
  | .superlative => some .adjective
  | .adverb => some .adjective
  | .present => some .verb
  | .progressive => some .verb
  | .past => some .verb
  | _ => none

end Tag

namespace Tags

/-- The first tag of a set whose forms may be irregular. -/
def inflection? (ts : Tags) : Option Tag := Tag.inflections.find? ts.has

/-- The only tag of a set, if its forms may be irregular. -/
def onlyInflection? (ts : Tags) : Option Tag := Tag.inflections.find? fun t => ts = single t

end Tags

/-! ## The table -/

/-- One irregular form. -/
structure IrregularForm where
  tag : Tag
  base : String
  surface : String
  deriving DecidableEq, Repr

/-- The table of irregular forms. -/
structure Irregulars where
  /-- Number of base words that each class has room for. -/
  capacity : Int := 100
  forms : List IrregularForm := []
  nouns : List String := []
  adjectives : List String := []
  verbs : List String := []

namespace Irregulars

/-- The base words of a class. -/
def bases (m : Irregulars) : WordClass → List String
  | .noun => m.nouns
  | .adjective => m.adjectives
  | .verb => m.verbs

/-- The table with one more base word in a class. -/
def addBase (m : Irregulars) (c : WordClass) (base : String) : Irregulars :=
  match c with
  | .noun => { m with nouns := m.nouns ++ [base] }
  | .adjective => { m with adjectives := m.adjectives ++ [base] }
  | .verb => { m with verbs := m.verbs ++ [base] }

/-- The table without forms. -/
def clear (m : Irregulars) : Irregulars := { capacity := m.capacity }

/-- The forms with a tag. -/
def formsOf (m : Irregulars) (t : Tag) : List IrregularForm := m.forms.filter (·.tag = t)

/-- Number of forms. -/
def size (m : Irregulars) : Nat := m.forms.length

/-- The irregular form of a base word. -/
def surface? (m : Irregulars) (base : String) (t : Tag) : Option String :=
  (m.forms.find? fun f => f.tag = t && f.base == base).map (·.surface)

/-- The first base word with an irregular form. -/
def base? (m : Irregulars) (surface : String) (t : Tag) : Option String :=
  (m.forms.find? fun f => f.tag = t && f.surface == surface).map (·.base)

/-- Forms with one entered: in the place of an earlier one of the same word and tag, else at the
end. -/
def putForm (new : IrregularForm) : List IrregularForm → List IrregularForm
  | [] => [new]
  | f :: rest =>
    if f.tag = new.tag && f.base == new.base then new :: rest else f :: putForm new rest

/-- Enters a form. The result tells whether there was room for its base word. -/
def enter (m : Irregulars) (c : WordClass) (form : IrregularForm) : Irregulars × Bool × Journal :=
  let known := (m.bases c).contains form.base
  if !known && m.capacity ≤ (m.bases c).length then
    (m, false,
      [Topic.tableFull.entry
        ("Already " ++ toString m.capacity ++ " " ++ c.name ++ " morphology entries, '" ++ form.base
          ++ "' lost")])
  else
    let m := if known then m else m.addBase c form.base
    ({ m with forms := putForm form m.forms }, true, [])

/-- Enters an irregular form of a base word for a set of tags, which must be one tag that has
irregular forms. -/
def add (m : Irregulars) (base : String) (tags : Tags) (surface : String) :
    Outcome Irregulars Bool :=
  match tags.onlyInflection? with
  | none => ⟨m, .error (.refused (.regularTag tags.name?)), []⟩
  | some t =>
    match t.wordClass? with
    | none => ⟨m, .error (.refused (.regularTag tags.name?)), []⟩
    | some c =>
      let (m, added, notes) := m.enter c ⟨t, base, surface⟩
      ⟨m, .ok added, notes⟩

/-! ## Lines -/

/-- The base word, tag and form on a line. -/
def parseLine? (line : String) : Option IrregularForm :=
  match Text.cutAt '*' line.toList with
  | (_, none) => none
  | (base, some rest) =>
    match Text.cutAt '=' rest with
    | (_, none) => none
    | (kind, some surface) =>
      let base := Text.trimChars base
      let kind := Text.trimChars kind
      let surface := Text.trimChars surface
      if base.isEmpty || kind.isEmpty || surface.isEmpty then none
      else (Tag.ofName? (String.ofList kind)).map fun t =>
        ⟨t, String.ofList base, String.ofList surface⟩

/-- Enters the form on a line. The result tells whether it was entered. -/
def addLine (m : Irregulars) (line whence : String) : Irregulars × Bool × Journal :=
  match parseLine? line with
  | none =>
    (m, false, [Topic.badIrregular.entry (whence ++ ": bad morphology format in '" ++ line ++ "'")])
  | some form =>
    match form.tag.wordClass? with
    | none =>
      (m, false,
        [Topic.regularTag.entry (whence ++ ": unknown morphology tag in '" ++ line ++ "'")])
    | some c => m.enter c form

/-! ## Files -/

/-- A reader of the lines of a file: the table, whether the section is one of irregular forms, and
how many forms were entered. -/
structure Scan where
  table : Irregulars
  inside : Bool
  entered : Nat
  notes : Journal

/-- Takes line `number` of a file. -/
def Scan.take (path : String) (s : Scan) (number : Nat) (raw : String) : Scan :=
  let line := Line.clean raw
  if Line.startsWith line "=" then
    { s with inside := (Line.header? line).any Line.isIrregularHead }
  else if s.inside && !line.isEmpty then
    let (table, added, notes) := s.table.addLine line (path ++ ":" ++ toString number)
    { s with
      table, entered := s.entered + (if added then 1 else 0), notes := s.notes ++ notes }
  else s

/-- Takes the lines of a file from line `number` on. -/
def Scan.takeAll (path : String) (s : Scan) (number : Nat) : List String → Scan
  | [] => s
  | raw :: rest => Scan.takeAll path (s.take path number raw) (number + 1) rest

/-- Enters the forms of a grammar file after those of the table, or in place of them. The result is
the number of forms entered, or nothing if the file cannot be opened. -/
def load (m : Irregulars) (files : Files) (route : Route) (append : Bool) :
    Outcome Irregulars (Option Nat) :=
  let m := if append then m else m.clear
  match files.read route with
  | .error (.file e) =>
    ⟨m, .ok none,
      [Topic.unreadIrregulars.entry
        ("Could not read morphology from " ++ route.shown ++ ": " ++ e.message)]⟩
  | .error e => ⟨m, .error e, []⟩
  | .ok content =>
    match content.lines with
    | .error e => ⟨m, .error e, []⟩
    | .ok lines =>
      let s := Scan.takeAll route.shown ⟨m, false, 0, []⟩ 1 lines
      ⟨s.table, .ok (some s.entered), s.notes⟩

/-- The line of a form in a file. -/
def formLine (base : String) (t : Tag) (surface : String) : String :=
  "  " ++ base ++ " * " ++ Text.padRight 5 t.name ++ " = " ++ surface ++ "\n"

/-- Text of the section that holds the table. -/
def sectionText (m : Irregulars) : String :=
  "// irregular morphologies (npl, npos, acomp, asup, adv, vpres, vprog, vpast)\n\n=[XXX-morph]\n"
    ++ String.join (WordClass.all.flatMap fun c =>
      (m.bases c).flatMap fun base =>
        c.tags.filterMap fun t =>
          match m.surface? base t with
          | some surface => if surface.isEmpty then none else some (formLine base t surface)
          | none => none)

/-- Writes the table to a file. The result is the number of base words, or nothing if the file cannot
be written. -/
def save (m : Irregulars) (files : Files) (route : Route) : Outcome Files (Option Nat) :=
  match files.write route m.sectionText with
  | .ok files => ⟨files, .ok (some (m.nouns.length + m.adjectives.length + m.verbs.length)), []⟩
  | .error (.file e) =>
    ⟨files, .ok none,
      [Topic.unwrittenIrregulars.entry
        ("Could not write morphology to " ++ route.shown ++ ": " ++ e.message)]⟩
  | .error e => ⟨files, .error e, []⟩

end Irregulars

end Utterance
