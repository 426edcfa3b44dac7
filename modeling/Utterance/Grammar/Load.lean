import Utterance.Counting
import Utterance.Grammar
import Utterance.Inflection.Irregular
import Utterance.Storage.View
import Utterance.Text.Alphabetic

/-!
# Loading grammars

A grammar file is a sequence of sections, each opened by a head. A section of rules adds to the
grammar, one of irregular forms to the table of forms if there is one to receive them. A line may
include another file, whose path is taken from the directory of the file itself. A file that is being
read is not read again inside itself, so loading ends: every nested file is one more of the stored
files.
-/

namespace Utterance.Grammar

/-! ## State -/

/-- What loading changes: the grammar, the table of irregular forms if there is one to receive them,
and the journal. -/
structure Loading where
  grammar : Grammar
  irregulars : Option Irregulars
  notes : Journal := []

namespace Loading

/-- The state with one more note. -/
def note (s : Loading) (topic : Topic) (message : String) : Loading :=
  { s with notes := s.notes ++ [topic.entry message] }

/-- Adds a line of a section of rules. -/
def addRule (s : Loading) (head line whence : String) : Loading :=
  let growth := s.grammar.expand head line whence
  { s with grammar := growth.grammar, notes := s.notes ++ growth.notes }

/-- Adds a line of a section of irregular forms. -/
def addIrregular (s : Loading) (line whence : String) : Loading :=
  match s.irregulars with
  | none => s
  | some table =>
    let (table, _, notes) := table.addLine line whence
    { s with irregulars := some table, notes := s.notes ++ notes }

/-- Warns about a head that is likely to be misread: one with a sugar character, or one in which
capitals outnumber small letters. -/
def checkHead (s : Loading) (name whence : String) : Loading :=
  let cs := name.toList
  if cs.any fun c => c == '?' || c == '#' || c == '*' || c == '+' then
    s.note .sugaredHead (whence ++ ": special character in =[" ++ name ++ "]")
  else
    let small := cs.countP fun c => Text.isAlpha c && Text.isLower c
    let capital := cs.countP fun c => Text.isAlpha c && Text.isUpper c
    if 0 < small && small < capital then
      s.note .capitalHead (whence ++ ": partial uppercase in =[" ++ name ++ "]")
    else s

end Loading

/-- The section that a line belongs to. -/
inductive Section where
  | none
  | rules (head : String)
  | irregular
  deriving DecidableEq, Repr

/-- The path that an include line names between its first two double quotes. -/
def includedName? (line : String) : Option String :=
  match Text.cutAt '"' line.toList with
  | (_, some rest) =>
    match Text.cutAt '"' rest with
    | (name, some _) => some (String.ofList name)
    | (_, none) => Option.none
  | (_, none) => Option.none

/-- The paths that the lines of a file at `path` include. -/
def includes (path : Path) (lines : List String) : List Path :=
  lines.filterMap fun raw =>
    let line := Line.clean raw
    if Line.startsWith line "#include" then (includedName? line).map path.parent.join
    else Option.none

/-! ## Reading -/

/-- Number of stored files that are not being read. -/
def unopened (places stack : List (List String)) : Nat :=
  places.countP fun p => !stack.contains p

/-- Opening one more stored file leaves fewer that are not being read. -/
theorem unopened_cons_lt {places stack : List (List String)} {place : List String}
    (hmem : place ∈ places) (hnew : stack.contains place = false) :
    unopened places (place :: stack) < unopened places stack := by
  apply countP_lt_countP _ hmem
  · simp only [hnew, Bool.not_false]
  · simp only [List.contains_cons, beq_self_eq_true, Bool.true_or, Bool.not_true]
  · intro other _ hother
    simp only [List.contains_cons, Bool.not_or, Bool.and_eq_true] at hother
    exact hother.2

/-- Reads the lines of a file from line `number` on. A line that names another file is left to
`nested`. -/
def loadLines (nested : Path → Loading → Loading × Except Fault Bool) (path : Path) (sec : Section)
    (number : Nat) : List String → Loading → Loading × Except Fault Bool
  | [], s => (s, .ok true)
  | raw :: rest, s =>
    let line := Line.clean raw
    let whence := path.text ++ ":" ++ toString number
    if Line.startsWith line "#include" then
      match includedName? line with
      | Option.none =>
        loadLines nested path .none (number + 1) rest
          (s.note .badInclude (whence ++ ": malformed include '" ++ line ++ "' skipped"))
      | some name =>
        let extra := path.parent.join name
        match nested extra s with
        | (s, .error e) => (s, .error e)
        | (s, .ok true) => loadLines nested path .none (number + 1) rest s
        | (s, .ok false) =>
          loadLines nested path .none (number + 1) rest
            (s.note .failedInclude (whence ++ ": include of " ++ extra.text ++ " failed, continuing"))
    else if Line.startsWith line "=" then
      match Line.header? line with
      | Option.none =>
        loadLines nested path .none (number + 1) rest
          (s.note .badHeader (whence ++ ": malformed rule header '" ++ line ++ "' skipped"))
      | some name =>
        if Line.isIrregularHead name then
          loadLines nested path .irregular (number + 1) rest s
        else loadLines nested path (.rules name) (number + 1) rest (s.checkHead name whence)
    else if line.isEmpty then loadLines nested path sec (number + 1) rest s
    else
      match sec with
      | .irregular => loadLines nested path sec (number + 1) rest (s.addIrregular line whence)
      | .rules head => loadLines nested path sec (number + 1) rest (s.addRule head line whence)
      | .none => loadLines nested path sec (number + 1) rest s

/-- Reads a file inside the files whose places are on `stack`. The result tells whether it could be
opened. -/
def loadFile (view : Files.View) (stack : List (List String)) (path : Path) (s : Loading) :
    Loading × Except Fault Bool :=
  let place := (Route.ofPath path).resolve view.cwd
  -- two spellings of one path lead to the same place
  if _hcycle : stack.contains place then
    (s.note .includeCycle ("Include cycle through " ++ path.text ++ " ignored"), .ok false)
  else
    match _hread : (view.after s.notes).read (.ofPath path) with
    | .error (.file e) =>
      (s.note .unopenedGrammar ("Could not open grammar " ++ path.text ++ ": " ++ e.message), .ok false)
    | .error e => (s, .error e)
    | .ok content =>
      match content.lines with
      | .error e => (s, .error e)
      | .ok lines =>
        loadLines (fun p s => loadFile view (place :: stack) p s) path .none 1 lines
          (s.note .loading
            ("Loading grammar " ++ path.text ++ " (" ++ toString lines.length ++ " lines)"))
termination_by unopened view.places stack
decreasing_by
  exact unopened_cons_lt (Files.View.resolve_mem_places _hread) (by simpa using _hcycle)

/-- The path of a grammar file: without an extension it gets the usual one. -/
def filePath (path : String) : Except Fault Path :=
  let p := Path.ofString path
  if p.extension.isEmpty then p.withExtension ".sgm" else .ok p

/-- Adds the rules of a grammar file and of what it includes. The result tells whether the file could
be opened. -/
def load (g : Grammar) (irregulars : Option Irregulars) (view : Files.View) (path : String) :
    Outcome (Grammar × Option Irregulars) Bool :=
  match filePath path with
  | .error e => ⟨(g, irregulars), .error e, []⟩
  | .ok p =>
    let g := { g with path := some (g.path.getD p) }
    let (s, result) := loadFile view [] p { grammar := g, irregulars }
    ⟨(s.grammar, s.irregulars), result, s.notes⟩

end Utterance.Grammar
