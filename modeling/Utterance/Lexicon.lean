import Utterance.Inflection
import Utterance.Progress

/-!
# Derived lexicons

A lexicon is a grammar file with a section of base words for each category. From it the inflected
sections are derived, and from inflected sections the base words are recovered. Both directions can
be checked against each other; what does not come back is reported as a problem.
-/

namespace Utterance

namespace Lexicon

/-! ## Sections -/

/-- Named lists of texts in the order in which the names first got an entry. -/
abbrev Sections := List (String × List String)

namespace Sections

/-- The entries of a section. -/
def get (ss : Sections) (name : String) : List String := (ss.lookup name).getD []

/-- The sections with `entry` at the end of a section, which is opened if need be. -/
def push (name entry : String) : Sections → Sections
  | [] => [(name, [entry])]
  | (n, es) :: rest => if n = name then (n, es ++ [entry]) :: rest else (n, es) :: push name entry rest

/-- Like `push`, but an entry that the section has already is not repeated. -/
def pushNew (name entry : String) (ss : Sections) : Sections :=
  if (ss.get name).contains entry then ss else ss.push name entry

/-- Number of entries in all sections. -/
def count (ss : Sections) : Nat := (ss.flatMap fun s => s.2).length

end Sections

/-- The entries of the wanted sections in the lines of a file; `current` is the open section. -/
def collect (wanted : List String) (current : Option String) (found : Sections) :
    List String → Sections
  | [] => found
  | raw :: rest =>
    let line := Line.clean raw
    if Line.startsWith line "=" then
      let name := (Line.header? line).map Text.upper
      collect wanted (name.filter wanted.contains) found rest
    else
      match current with
      | some name =>
        collect wanted current (if line.isEmpty then found else found.push name line) rest
      | none => collect wanted current found rest

/-- The entries of the named sections of a grammar file, all occurrences in order. -/
def readSections (files : Files) (route : Route) (heads : List String) : Except Fault Sections := do
  let content ← files.read route
  let lines ← content.lines
  return collect (heads.map Text.upper) none [] lines

/-! ## Reports -/

/-- What a report is about: inflected forms made of base words, or base words found again. -/
inductive FormKind where
  | derived
  | base
  deriving DecidableEq, Repr

namespace FormKind

/-- Name of a kind of forms. -/
def name : FormKind → String
  | .derived => "derived"
  | .base => "base"

/-- The topic of a note on one wrong form. -/
def problemTopic : FormKind → Topic
  | .derived => .wrongDerived
  | .base => .wrongBase

/-- The topic of the note on their number. -/
def countTopic : FormKind → Topic
  | .derived => .wrongDerivedCount
  | .base => .wrongBaseCount

end FormKind

/-- What a derivation produced, and the forms that did not come back. -/
structure Report where
  sections : Sections := []
  problems : List String := []

namespace Report

/-- Number of problems. -/
def errors (r : Report) : Nat := r.problems.length

/-- Number of words in all sections. -/
def count (r : Report) : Nat := r.sections.count

/-- The report with one more problem. -/
def problem (r : Report) (text : String) : Report := { r with problems := r.problems ++ [text] }

/-- The journal's view of the problems, with their number if the forms were checked. -/
def notes (r : Report) (check : Bool) (kind : FormKind) : Journal :=
  r.problems.map (fun p => kind.problemTopic.entry ("  " ++ p ++ " !"))
    ++ if check then
      [kind.countTopic.entry
        ("Found " ++ toString r.errors ++ " inconsistent " ++ kind.name ++ " forms")]
    else []

end Report

/-- Name of a set of tags in a problem. -/
def tagLabel (tags : Tags) : String := tags.name?.getD "None"

/-- The problem of a word that has no counterpart. -/
def missingProblem (tags : Tags) (word : String) : String :=
  tagLabel tags ++ ": " ++ word ++ " -> (null)"

/-- The problem of a word whose counterpart leads elsewhere. -/
def detourProblem (tags : Tags) (word there : String) (back : Option String) : String :=
  tagLabel tags ++ ": " ++ word ++ " -> " ++ there ++ " -> " ++ back.getD "None"

/-! ## From base words to forms -/

/-- One way of deriving a section: from which section, into which, by which tags, with the comment of
the derived section. -/
structure Derivation where
  source : String
  target : String
  tags : Tags
  comment : String

/-- All derivations in the order of a derived lexicon. -/
def derivations : List Derivation :=
  [⟨"AKO", "AKO-S", .single .plural, "plural noun"⟩,
    ⟨"AKO", "AKO-P", .single .possessive, "possessive noun"⟩,
    ⟨"AKO", "AKO-P", .ofList [.plural, .possessive], "plural possessive noun"⟩,
    ⟨"NAME", "NAME-P", .single .possessive, "possessive name"⟩,
    ⟨"HQ", "HQ-ER", .single .comparative, "comparative adjectives"⟩,
    ⟨"HQ", "HQ-EST", .single .superlative, "superlative adjectives"⟩,
    ⟨"HQ", "MOD", .single .adverb, "adverbs from adjectives"⟩,
    ⟨"ACT", "ACT-S", .single .present, "present verb"⟩,
    ⟨"ACT", "ACT-G", .single .progressive, "progressive verb"⟩,
    ⟨"ACT", "ACT-D", .single .past, "past or passive verb"⟩]

/-- The sections that words are derived from. -/
def sources : List String := ["AKO", "NAME", "HQ", "ACT"]

/-- The report with the form of one more word. -/
def deriveWord (m : Irregulars) (check : Bool) (d : Derivation) (r : Report) (word : String) :
    Report :=
  match m.form word d.tags with
  | none => r.problem (missingProblem d.tags word)
  | some form =>
    let r := { r with sections := r.sections.pushNew d.target form }
    let back := m.baseForm form d.tags
    if check && back != some word then r.problem (detourProblem d.tags word form back) else r

/-- The words that each derivation applies to. -/
def jobs (bases : Sections) : List (Derivation × String) :=
  derivations.flatMap fun d => (bases.get d.source).map fun word => (d, word)

/-- The progress lines of a job of `total` steps that takes no time. No share exceeds the whole, so no
number is too large. -/
def progressNotes (total : Nat) (label : String) : Journal :=
  let start : Meter × Journal := ({ total := total, label, channel := .inflection }, [])
  ((List.range total).foldl
    (fun (m, notes) _ =>
      match m.update 1 "" 0 with
      | .ok (m, more) => (m, notes ++ more)
      | .error _ => (m, notes))
    start).2

/-- Inflects every word of the base sections. -/
def derive (m : Irregulars) (bases : Sections) (check progress : Bool) : Report × Journal :=
  let todo := jobs bases
  let report := todo.foldl (fun r (d, word) => deriveWord m check d r word) {}
  (report,
    (if progress then progressNotes todo.length "Deriving forms" else [])
      ++ report.notes check .derived)

/-- The table that the forms of a lexicon file are derived with. To check them, the irregular forms of
the file replace those of the table. -/
def prepare (m : Irregulars) (files : Files) (route : Route) (check : Bool) :
    Outcome Irregulars Unit :=
  if check then
    let o := m.load files route false
    { o with
      result := o.result.bind fun
        | some _ => .ok ()
        | none => .error (.file (.noLexicon route.shown)) }
  else ⟨m, .ok (), []⟩

/-- Inflects every word of the base sections of a lexicon file. -/
def deriveFile (m : Irregulars) (files : Files) (route : Route) (check progress : Bool) :
    Outcome Irregulars Report :=
  let loaded := prepare m files route check
  match loaded.result with
  | .error e => ⟨loaded.state, .error e, loaded.notes⟩
  | .ok () =>
    match readSections files route sources with
    | .error e => ⟨loaded.state, .error e, loaded.notes⟩
    | .ok bases =>
      let (report, notes) := derive loaded.state bases check progress
      ⟨loaded.state, .ok report, loaded.notes ++ notes⟩

/-- Text of a section of a derived lexicon. The verbs are set off by a rule. -/
def sectionText (d : Derivation) (words : List String) : String :=
  (if d.target = "ACT-S" then "// -----------------------------------------\n\n" else "")
    ++ "// " ++ d.comment ++ " (" ++ tagLabel d.tags ++ ")\n\n=[" ++ d.target ++ "]\n"
    ++ String.join (words.map fun w => "  " ++ w ++ "\n") ++ "\n\n"

/-- Texts of the sections of a derived lexicon, each under the first derivation that leads to it. -/
def sectionTexts (sections : Sections) (written : List String) : List Derivation → List String
  | [] => []
  | d :: rest =>
    let words := sections.get d.target
    if written.contains d.target || words.isEmpty then sectionTexts sections written rest
    else sectionText d words :: sectionTexts sections (d.target :: written) rest

/-- Text of a derived lexicon. -/
def derivedText (name : String) (sections : Sections) : String :=
  "// forms derived from grammar: " ++ name ++ "\n"
    ++ "// ================================================\n\n"
    ++ String.join (sectionTexts sections [] derivations)

/-- Writes the sections derived from the lexicon file `base`. -/
def writeReport (files : Files) (base out : Path) (report : Report) : Outcome Files Unit :=
  match files.write (.ofPath out) (derivedText base.name report.sections) with
  | .error e => ⟨files, .error e, []⟩
  | .ok files =>
    ⟨files, .ok (),
      [Topic.writtenDerived.entry
        ("Wrote " ++ toString report.count ++ " derived forms to " ++ out.text)]⟩

/-- Derives the inflected sections of a lexicon file and writes them to another file. -/
def writeDerived (m : Irregulars) (files : Files) (base out : Path) (check progress : Bool) :
    Outcome (Irregulars × Files) Report :=
  let o := deriveFile m files (.ofPath base) check progress
  match o.result with
  | .error e => ⟨(o.state, files), .error e, o.notes⟩
  | .ok report =>
    let written := writeReport files base out report
    ⟨(o.state, written.state), written.result.map fun () => report, o.notes ++ written.notes⟩

/-- Where a derived lexicon goes if no path is given. -/
def defaultName : String := "derived.sgm"

/-- The path of a derived lexicon. -/
def outPath (given : Option String) : Path :=
  match given with
  | some s => if s.isEmpty then .ofString defaultName else .ofString s
  | none => .ofString defaultName

/-! ## From forms to base words -/

/-- One way of recovering base words: from which section, by which tags, with its comment. -/
structure Inversion where
  source : String
  tags : Tags
  comment : String

/-- All inversions in the order of a base lexicon. -/
def inversions : List Inversion :=
  [⟨"AKO-S", .single .plural, "nouns from plurals"⟩,
    ⟨"HQ-ER", .single .comparative, "adjectives from comparatives"⟩,
    ⟨"HQ-EST", .single .superlative, "adjectives from superlatives"⟩,
    ⟨"ACT-S", .single .present, "verbs from present tense"⟩,
    ⟨"ACT-G", .single .progressive, "verbs from progressive tense"⟩,
    ⟨"ACT-D", .single .past, "verbs from past tense"⟩]

/-- The report with the base of one more form. -/
def invertWord (m : Irregulars) (check : Bool) (i : Inversion) (r : Report) (word : String) :
    Report :=
  match m.baseForm word i.tags with
  | none => r.problem (missingProblem i.tags word)
  | some base =>
    let r := { r with sections := r.sections.push i.source base }
    let back := m.form base i.tags
    if check && back != some word then r.problem (detourProblem i.tags word base back) else r

/-- The lines of a base lexicon for one section of forms. -/
def inversionLines (m : Irregulars) (i : Inversion) (words : List String) : List String :=
  let found := words.filterMap fun word =>
    (m.baseForm word i.tags).map fun base => "  " ++ Text.padRight 20 base ++ "<- " ++ word
  if found.isEmpty then []
  else ["// " ++ i.comment ++ " (" ++ tagLabel i.tags ++ ")"] ++ found ++ ["\n"]

/-- The inflected sections of a file. -/
def readForms (files : Files) (route : Route) : Except Fault Sections :=
  readSections files route (inversions.map (·.source))

/-- Recovers the base words of inflected sections. -/
def invert (m : Irregulars) (forms : Sections) (check : Bool) : Report × Journal :=
  let report := inversions.foldl
    (fun r i => (forms.get i.source).foldl (invertWord m check i) r) {}
  (report, report.notes check .base)

/-- Writes the base words of inflected sections beside their forms, if a file is given. -/
def writeBases (m : Irregulars) (forms : Sections) (files : Files) (out : Option String) :
    Except Fault Files :=
  match out.filter (!·.isEmpty) with
  | none => .ok files
  | some path =>
    let lines := inversions.flatMap fun i => inversionLines m i (forms.get i.source)
    files.write (.ofString path) ("\n".intercalate lines)

/-- Recovers the base words of the inflected sections of a file, and writes them beside their forms
to another file if one is given. -/
def invertFile (m : Irregulars) (files : Files) (route : Route) (check : Bool)
    (out : Option String) : Outcome Files Report :=
  match readForms files route with
  | .error e => ⟨files, .error e, []⟩
  | .ok forms =>
    let (report, notes) := invert m forms check
    match writeBases m forms files out with
    | .error e => ⟨files, .error e, notes⟩
    | .ok files => ⟨files, .ok report, notes⟩

end Lexicon

end Utterance
