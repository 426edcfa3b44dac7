import Utterance.Grammar.Load

/-!
# One line of a grammar file

A line either includes a file, and then everything is left to that file, or it adds to the grammar, the
table of irregular forms and the journal. Either way it settles the section of the lines after it.
-/

namespace Utterance.Grammar

/-- The section of the lines after a line. -/
def Section.after (sec : Section) (line : String) : Section :=
  if Line.startsWith line "#include" then .none
  else if Line.startsWith line "=" then
    match Line.header? line with
    | Option.none => .none
    | some name => if Line.isIrregularHead name then .irregular else .rules name
  else sec

/-- The path that a line of the file at `path` includes. -/
def included? (path : Path) (line : String) : Option Path :=
  if Line.startsWith line "#include" then (includedName? line).map path.parent.join else none

/-- What a line adds that includes no file. -/
def Loading.takeLine (s : Loading) (path : Path) (sec : Section) (number : Nat) (line : String) :
    Loading :=
  let whence := path.text ++ ":" ++ toString number
  if Line.startsWith line "#include" then
    s.note .badInclude (whence ++ ": malformed include '" ++ line ++ "' skipped")
  else if Line.startsWith line "=" then
    match Line.header? line with
    | none => s.note .badHeader (whence ++ ": malformed rule header '" ++ line ++ "' skipped")
    | some name => if Line.isIrregularHead name then s else s.checkHead name whence
  else if line.isEmpty then s
  else
    match sec with
    | .irregular => s.addIrregular line whence
    | .rules head => s.addRule head line whence
    | .none => s

/-- The note on an included file that could not be read. -/
def Loading.noteFailed (s : Loading) (path : Path) (number : Nat) (extra : Path) : Loading :=
  s.note .failedInclude
    (path.text ++ ":" ++ toString number ++ ": include of " ++ extra.text ++ " failed, continuing")

variable {nested : Path → Loading → Loading × Except Fault Bool} {path : Path} {sec : Section}
  {raw : String}

theorem included?_eq_none (path : Path) {line : String}
    (h : Line.startsWith line "#include" = false) : included? path line = none := by
  rw [included?, h, if_neg Bool.false_ne_true]

/-- The files that lines include are that of the first line, if it includes one, and those of the
rest. -/
theorem includes_cons (path : Path) (raw : String) (rest : List String) :
    includes path (raw :: rest) = (included? path (Line.clean raw)).toList ++ includes path rest := by
  show List.filterMap (fun raw => included? path (Line.clean raw)) (raw :: rest) = _
  rw [List.filterMap_cons]
  cases included? path (Line.clean raw) <;> rfl

/-- A line that includes no file is taken, and the lines after it are read in the section that it
leaves open. -/
theorem loadLines_cons_of_none (h : included? path (Line.clean raw) = none) (number : Nat)
    (rest : List String) (s : Loading) :
    loadLines nested path sec number (raw :: rest) s
      = loadLines nested path (sec.after (Line.clean raw)) (number + 1) rest
        (s.takeLine path sec number (Line.clean raw)) := by
  rw [loadLines.eq_def]
  simp only [Section.after, Loading.takeLine]
  split
  · rename_i hinclude
    rw [included?, if_pos hinclude, Option.map_eq_none_iff] at h
    simp only [h]
  · split
    · cases Line.header? (Line.clean raw) with
      | none => rfl
      | some name =>
        simp only
        split <;> rfl
    · split
      · rfl
      · cases sec <;> rfl

/-- After an included file the lines are read on, whether the file could be opened or not, unless a
fault stops everything. -/
theorem loadLines_cons_of_some {extra : Path} (h : included? path (Line.clean raw) = some extra)
    (number : Nat) (rest : List String) (s : Loading) :
    loadLines nested path sec number (raw :: rest) s
      = match nested extra s with
        | (s, .error e) => (s, .error e)
        | (s, .ok true) => loadLines nested path .none (number + 1) rest s
        | (s, .ok false) =>
          loadLines nested path .none (number + 1) rest (s.noteFailed path number extra) := by
  have hinclude : Line.startsWith (Line.clean raw) "#include" = true := by
    unfold included? at h
    split at h
    · rename_i hinclude
      exact hinclude
    · cases h
  rw [included?, if_pos hinclude] at h
  obtain ⟨name, hname, rfl⟩ := Option.map_eq_some_iff.1 h
  rw [loadLines.eq_def]
  simp only [hinclude, hname, if_true]
  rfl

end Utterance.Grammar
