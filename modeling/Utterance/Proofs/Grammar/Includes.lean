import Mathlib.Data.List.Perm.Subperm
import Mathlib.Logic.Relation
import Utterance.Proofs.Grammar.Load
import Utterance.Proofs.Grammar.Reading

/-!
# The files that are being read

A file that includes another one waits until that one is read. The files that wait form a stack. Here
loading is said once more as steps of a machine that keeps this stack in its state and knows no measure:
a step opens a file, takes one line, or ends a file. No file is put on the stack whose place is on it
already, so the stack never holds more files than there are, and the machine comes to a halt, with an
empty stack and with what loading gives.

A place is the same for every path that leads to it from the working directory, be it relative, absolute
or one that leaves the directory and comes back (`Path.place_eq_iff`). So a file that is being read is
known again however it is spelled.
-/

namespace Utterance.Grammar

/-! ## The machine -/

/-- A file that is being read: the open section, and the lines left, from line `number` on. -/
structure Frame where
  path : Path
  sec : Section := .none
  number : Nat := 1
  rest : List String

namespace Frame

/-- The place of a file, as seen from the working directory `cwd`. -/
def place (cwd : List String) (f : Frame) : List String := (Route.ofPath f.path).resolve cwd

/-- The file after its next line, with another section. -/
def skip (f : Frame) (sec : Section) : Frame :=
  { f with sec, number := f.number + 1, rest := f.rest.tail }

@[simp]
theorem place_skip (cwd : List String) (f : Frame) (sec : Section) :
    (f.skip sec).place cwd = f.place cwd := rfl

/-- The places of some files. -/
abbrev places (cwd : List String) (fs : List Frame) : List (List String) := fs.map (Frame.place cwd)

end Frame

/-- What comes next. -/
inductive Phase where
  /-- A file is to be opened. -/
  | opening (path : Path)
  /-- The file on top of the stack is read on. -/
  | reading
  /-- There is no more to read of a file, or nothing was read of it. -/
  | closed (path : Path) (result : Except Fault Bool)

/-- A state of the machine. -/
structure Loader where
  /-- The files that are being read, the innermost first. -/
  stack : List Frame := []
  phase : Phase
  state : Loading
  /-- The places that were read from so far, each with the places of the files that waited for it. -/
  begun : List (List String × List (List String)) := []

namespace Loader

/-- The places of the files that are being read. -/
abbrev places (cwd : List String) (l : Loader) : List (List String) := Frame.places cwd l.stack

/-- The state in which a file is to be loaded. -/
def start (path : Path) (state : Loading) : Loader := { phase := .opening path, state }

/-- Opens a file, unless it is being read. -/
def enter (view : Files.View) (l : Loader) (path : Path) : Loader :=
  let place := (Route.ofPath path).resolve view.cwd
  if (l.places view.cwd).contains place then
    { l with
      phase := .closed path (.ok false)
      state := l.state.note .includeCycle ("Include cycle through " ++ path.text ++ " ignored") }
  else
    match (view.after l.state.notes).read (.ofPath path) with
    | .error (.file e) =>
      { l with
        phase := .closed path (.ok false)
        state := l.state.note .unopenedGrammar
          ("Could not open grammar " ++ path.text ++ ": " ++ e.message) }
    | .error e => { l with phase := .closed path (.error e) }
    | .ok content =>
      let l := { l with begun := (place, l.places view.cwd) :: l.begun }
      match content.lines with
      | .error e => { l with phase := .closed path (.error e) }
      | .ok lines =>
        { l with
          stack := { path, rest := lines } :: l.stack
          phase := .reading
          state := l.state.note .loading
            ("Loading grammar " ++ path.text ++ " (" ++ toString lines.length ++ " lines)") }

/-- One step; none if the machine has come to a halt. -/
def step (view : Files.View) (l : Loader) : Option Loader :=
  match l.phase, l.stack with
  | .opening path, _ => some (l.enter view path)
  | .reading, [] => none
  | .reading, f :: fs =>
    match f.rest with
    | [] => some { l with stack := fs, phase := .closed f.path (.ok true) }
    | raw :: _ =>
      match included? f.path (Line.clean raw) with
      | some extra => some { l with phase := .opening extra }
      | none =>
        some { l with
          stack := f.skip (f.sec.after (Line.clean raw)) :: fs
          state := l.state.takeLine f.path f.sec f.number (Line.clean raw) }
  | .closed _ _, [] => none
  | .closed _ (.error e), f :: fs => some { l with stack := fs, phase := .closed f.path (.error e) }
  | .closed _ (.ok true), f :: fs => some { l with stack := f.skip .none :: fs, phase := .reading }
  | .closed extra (.ok false), f :: fs =>
    some { l with
      stack := f.skip .none :: fs
      phase := .reading
      state := l.state.noteFailed f.path f.number extra }

/-- Whether some steps lead from one state to another. -/
abbrev Runs (view : Files.View) : Loader → Loader → Prop :=
  Relation.ReflTransGen fun l l' => l.step view = some l'

variable {view : Files.View} {l l' last : Loader}

/-- The machine has no choice: whatever it comes to lies on the way to where it halts. -/
theorem Runs.to_halt (h : Runs view l l') (hlast : Runs view l last) (hhalt : last.step view = none) :
    Runs view l' last := by
  induction h with
  | refl => exact hlast
  | tail _ hstep ih =>
    -- what was reached before has a next step, which is this one
    rcases ih.cases_head with rfl | ⟨next, hnext, hrest⟩
    · rw [hhalt] at hstep
      cases hstep
    · obtain rfl := Option.some.inj (hstep.symm.trans hnext)
      exact hrest

/-! ## The stack -/

/-- What holds of the stack throughout: the files on it are stored at different places, and no place was
read from while it was on the stack. -/
structure Sound (view : Files.View) (l : Loader) : Prop where
  nodup : (l.places view.cwd).Nodup
  stored : ∀ place ∈ l.places view.cwd, place ∈ view.places
  begun : ∀ b ∈ l.begun, b.1 ∉ b.2

theorem sound_start (view : Files.View) (path : Path) (s : Loading) : Sound view (start path s) :=
  ⟨List.nodup_nil, fun _ h => absurd h List.not_mem_nil, fun _ h => absurd h List.not_mem_nil⟩

/-- Only the places on the stack and the places read from matter. -/
theorem Sound.congr (h : Sound view l) (hplaces : l'.places view.cwd = l.places view.cwd)
    (hbegun : l'.begun = l.begun) : Sound view l' :=
  ⟨by rw [hplaces]; exact h.nodup, by rw [hplaces]; exact h.stored, by rw [hbegun]; exact h.begun⟩

/-- Files may go from the top of the stack. -/
theorem Sound.tail (h : Sound view l) (hplaces : l'.places view.cwd = (l.places view.cwd).tail)
    (hbegun : l'.begun = l.begun) : Sound view l' where
  nodup := by
    rw [hplaces]
    exact h.nodup.sublist (List.tail_sublist _)
  stored place hplace := by
    rw [hplaces] at hplace
    exact h.stored place (List.mem_of_mem_tail hplace)
  begun := by
    rw [hbegun]
    exact h.begun

/-- A file is read only if it is not being read, so the places on the stack stay different from each
other. -/
theorem Sound.enter (h : Sound view l) (path : Path) : Sound view (l.enter view path) := by
  unfold Loader.enter
  simp only
  split
  · exact h.congr rfl rfl
  · rename_i hcycle
    have hnew : (Route.ofPath path).resolve view.cwd ∉ l.places view.cwd := by simpa using hcycle
    split
    · exact h.congr rfl rfl
    · exact h.congr rfl rfl
    · rename_i content hread
      -- the file is stored and was not being read, so its place is a new one
      have hbegun : ∀ b ∈ ((Route.ofPath path).resolve view.cwd, l.places view.cwd) :: l.begun,
          b.1 ∉ b.2 :=
        List.forall_mem_cons.2 ⟨hnew, h.begun⟩
      split
      · exact ⟨h.nodup, h.stored, hbegun⟩
      · refine ⟨List.nodup_cons.2 ⟨hnew, h.nodup⟩, fun place hplace => ?_, hbegun⟩
        rcases List.mem_cons.1 hplace with rfl | hplace
        · exact Files.View.resolve_mem_places hread
        · exact h.stored place hplace

/-- A step opens a file, or it reads nothing and at most takes a file from the stack. Everything
that is proved about runs rests on these two cases. -/
theorem step_cases (hstep : l.step view = some l') :
    (∃ path, l' = l.enter view path)
      ∨ l'.begun = l.begun
        ∧ (l'.places view.cwd = l.places view.cwd
          ∨ l'.places view.cwd = (l.places view.cwd).tail) := by
  obtain ⟨stack, phase, state, begun⟩ := l
  cases phase with
  | opening path =>
    cases hstep
    exact .inl ⟨path, rfl⟩
  -- at its end a file is closed; before that a line is taken, or a file is asked for that is not
  -- opened yet
  | reading =>
    cases stack with
    | nil => cases hstep
    | cons f fs =>
      simp only [step] at hstep
      split at hstep
      · cases hstep
        exact .inr ⟨rfl, .inr rfl⟩
      · split at hstep
        · cases hstep
          exact .inr ⟨rfl, .inl rfl⟩
        · cases hstep
          exact .inr ⟨rfl, .inl (by simp [places])⟩
  | closed path result =>
    cases stack with
    | nil => cases hstep
    | cons f fs =>
      -- a fault closes the file that included it, too
      rcases result with fault | opened
      · cases hstep
        exact .inr ⟨rfl, .inr rfl⟩
      · cases opened <;> cases hstep <;> exact .inr ⟨rfl, .inl rfl⟩

/-- A step keeps the stack sound. A file is opened only if its place is not on the stack, and what
was read while a file was on the stack was read at other places. -/
theorem Sound.step (h : Sound view l) (hstep : l.step view = some l') : Sound view l' := by
  rcases step_cases hstep with ⟨path, rfl⟩ | ⟨hbegun, hplaces | hplaces⟩
  · exact h.enter path
  · exact h.congr hplaces hbegun
  · exact h.tail hplaces hbegun

/-- A whole run keeps the stack sound: it holds at the start and after every step. -/
theorem Sound.runs (h : Sound view l) (hruns : Runs view l l') : Sound view l' := by
  induction hruns with
  | refl => exact h
  | tail _ hstep ih => exact ih.step hstep

/-- There are never more files on the stack than there are files. -/
theorem Sound.length_le (h : Sound view l) : l.stack.length ≤ view.places.length := by
  have hsub : (l.places view.cwd).Subperm view.places := List.subperm_of_subset h.nodup h.stored
  simpa [places] using hsub.length_le

/-! ## What the machine comes to -/

/-- Whether the machine, with some files waiting, comes to the end of a file as a reader does. -/
def Follows (view : Files.View) (fs : List Frame) (path : Path)
    (read : Loading → Loading × Except Fault Bool) : Prop :=
  ∀ s begun, ∃ begun', Runs view ⟨fs, .opening path, s, begun⟩
    ⟨fs, .closed path (read s).2, (read s).1, begun'⟩

/-- The lines of a file are read one after the other if the machine does with every included file what
the reader does. -/
theorem exists_runs_loadLines {nested : Path → Loading → Loading × Except Fault Bool} {path : Path}
    {fs : List Frame}
    (hnested : ∀ f : Frame, f.path = path → ∀ extra, Follows view (f :: fs) extra (nested extra))
    (lines : List String) (sec : Section) (number : Nat) (s : Loading)
    (begun : List (List String × List (List String))) :
    ∃ begun', Runs view ⟨⟨path, sec, number, lines⟩ :: fs, .reading, s, begun⟩
      ⟨fs, .closed path (loadLines nested path sec number lines s).2,
        (loadLines nested path sec number lines s).1, begun'⟩ := by
  induction lines generalizing sec number s begun with
  | nil => exact ⟨begun, .single rfl⟩
  | cons raw rest ih =>
    -- a line without an include is one step, and one with an include is left to the nested reader
    cases hincluded : included? path (Line.clean raw) with
    | none =>
      rw [loadLines_cons_of_none hincluded]
      obtain ⟨begun', hrest⟩ := ih (sec.after (Line.clean raw)) (number + 1)
        (s.takeLine path sec number (Line.clean raw)) begun
      refine ⟨begun', .head ?_ hrest⟩
      simp only [step, hincluded]
      rfl
    | some extra =>
      rw [loadLines_cons_of_some hincluded]
      obtain ⟨begun', hextra⟩ := hnested ⟨path, sec, number, raw :: rest⟩ rfl extra s begun
      have hopening : Loader.step view ⟨⟨path, sec, number, raw :: rest⟩ :: fs, .reading, s, begun⟩
          = some ⟨⟨path, sec, number, raw :: rest⟩ :: fs, .opening extra, s, begun⟩ := by
        simp only [step, hincluded]
      rcases hread : nested extra s with ⟨s', fault | opened⟩
      · rw [hread] at hextra
        exact ⟨begun', .head hopening (hextra.tail rfl)⟩
      · rw [hread] at hextra
        cases opened with
        | true =>
          obtain ⟨begun'', hrest⟩ := ih .none (number + 1) s' begun'
          exact ⟨begun'', .head hopening (hextra.trans (.head rfl hrest))⟩
        | false =>
          obtain ⟨begun'', hrest⟩ := ih .none (number + 1) (s'.noteFailed path number extra) begun'
          exact ⟨begun'', .head hopening (hextra.trans (.head rfl hrest))⟩

/-- A file of which nothing can be read is closed at once, and any other is put on the stack. In the
second case there are fewer stored files left that are not being read. -/
theorem enter_cases (view : Files.View) (fs : List Frame) (path : Path) (s : Loading)
    (begun : List (List String × List (List String))) :
    (∃ begun', enter view ⟨fs, .opening path, s, begun⟩ path
        = ⟨fs, .closed path (loadFile view (Frame.places view.cwd fs) path s).2,
          (loadFile view (Frame.places view.cwd fs) path s).1, begun'⟩)
      ∨ ∃ lines s' begun', enter view ⟨fs, .opening path, s, begun⟩ path
          = ⟨{ path, rest := lines } :: fs, .reading, s', begun'⟩
        ∧ loadFile view (Frame.places view.cwd fs) path s
          = loadLines (loadFile view ((Route.ofPath path).resolve view.cwd :: Frame.places view.cwd fs))
            path .none 1 lines s'
        ∧ unopened view.places ((Route.ofPath path).resolve view.cwd :: Frame.places view.cwd fs)
          < unopened view.places (Frame.places view.cwd fs) := by
  by_cases hcycle : (Frame.places view.cwd fs).contains ((Route.ofPath path).resolve view.cwd) = true
  · rw [loadFile, dif_pos hcycle]
    simp only [enter, hcycle, if_true]
    exact .inl ⟨begun, rfl⟩
  -- a file that is not on the stack is one place less that may still be opened
  · rw [loadFile_of_not_contains hcycle]
    simp only [enter, hcycle]
    cases hread : (view.after s.notes).read (.ofPath path) with
    | error fault => cases fault <;> exact .inl ⟨begun, rfl⟩
    | ok content =>
      cases hlines : content.lines with
      | error fault =>
        simp only [hlines]
        exact .inl ⟨_, rfl⟩
      | ok lines =>
        simp only [hlines]
        exact .inr ⟨lines, _, _, rfl, rfl,
          unopened_cons_lt (Files.View.resolve_mem_places hread) (by simpa using hcycle)⟩

/-- The machine does with a file what loading does with it inside the files that wait. The induction
is on the number of stored files that are not on the stack. -/
theorem follows_loadFile (fs : List Frame) (path : Path) :
    Follows view fs path (loadFile view (Frame.places view.cwd fs) path) := by
  -- a nested file leaves fewer stored files that are not being read
  induction hn : unopened view.places (Frame.places view.cwd fs) using Nat.strongRecOn generalizing fs path
    with
  | _ n ih =>
    subst hn
    intro s begun
    have hstep : step view ⟨fs, .opening path, s, begun⟩
        = some (enter view ⟨fs, .opening path, s, begun⟩ path) := rfl
    rcases enter_cases view fs path s begun with
      ⟨begun', henter⟩ | ⟨lines, s', begun', henter, hload, hless⟩
    · exact ⟨begun', .single (hstep.trans (congrArg some henter))⟩
    · have hnested : ∀ f : Frame, f.path = path → ∀ extra,
          Follows view (f :: fs) extra
            (loadFile view ((Route.ofPath path).resolve view.cwd :: Frame.places view.cwd fs) extra) := by
        rintro f rfl extra
        exact ih _ hless (f :: fs) extra rfl
      obtain ⟨begun'', hlines⟩ := exists_runs_loadLines hnested lines .none 1 s' begun'
      rw [hload]
      exact ⟨begun'', .head (hstep.trans (congrArg some henter)) hlines⟩

end Loader

/-! ## Loading -/

open Loader

/-- Loading a grammar file comes to an end, whatever the files include and however they spell it, and no
file is left on the stack then. On the way to it no more files are on the stack than there are, all of
them stored at different places, and no place is read from while it is on the stack. A path without a
last component is refused before anything is read.

The working directory is that of the view. The places are what the paths resolve to from there, so two
spellings of one file are one place. -/
theorem load_halts (g : Grammar) (irregulars : Option Irregulars) (view : Files.View) (name : String) :
    (∀ fault, filePath name = .error fault →
        g.load irregulars view name = ⟨(g, irregulars), .error fault, []⟩)
      ∧ ∀ p, filePath name = .ok p →
        let first := start p { grammar := g.onPath p, irregulars }
        ∃ last result, Runs view first last ∧ last.step view = none
          ∧ last.stack = [] ∧ last.phase = .closed p result
          ∧ g.load irregulars view name
            = ⟨(last.state.grammar, last.state.irregulars), result, last.state.notes⟩
          ∧ ∀ l, Runs view first l → Runs view l last ∧ (l.places view.cwd).Nodup
            ∧ l.stack.length ≤ view.places.length ∧ ∀ b ∈ l.begun, b.1 ∉ b.2 := by
  refine ⟨fun fault hpath => ?_, fun p hpath => ?_⟩
  · unfold load
    rw [hpath]
  · intro first
    obtain ⟨begun, hruns⟩ := @follows_loadFile view [] p { grammar := g.onPath p, irregulars } []
    refine ⟨_, _, hruns, rfl, rfl, rfl, load_of_filePath hpath, fun l hl => ?_⟩
    -- sound throughout, since it is at the start
    have hsound := (sound_start view p { grammar := g.onPath p, irregulars }).runs hl
    exact ⟨hl.to_halt hruns rfl, hsound.nodup, hsound.length_le, hsound.begun⟩

/-- Two files in the working directory `w`. The first includes itself by a way that leaves the directory
and comes back to it, and the second by an absolute path, from which the second includes the first. -/
def entwined : Files :=
  { entries := [(["trips.sgm"], .text "#include \"../w/trips.sgm\"\n#include \"/w/more.sgm\"\n"),
      (["more.sgm"], .text "#include \"trips.sgm\"\n")]
    cwd := ["w"] }

/-- Relative and absolute spellings of one path are mixed here, and all of them lead to the place of the
first file. -/
theorem load_halts_entwined :
    let first : Path := ⟨"", ["trips.sgm"]⟩
    let around : Path := ⟨"", ["..", "w", "trips.sgm"]⟩
    let second : Path := ⟨"/", ["w", "more.sgm"]⟩
    let again : Path := ⟨"/", ["w", "trips.sgm"]⟩
    let outset := start first { grammar := ({} : Grammar).onPath first, irregulars := none }
    includes first (Text.lines "#include \"../w/trips.sgm\"\n#include \"/w/more.sgm\"\n")
        = [around, second]
      ∧ includes second (Text.lines "#include \"trips.sgm\"\n") = [again]
      ∧ [first, around, again].Nodup
      ∧ (∀ path ∈ [first, around, again], (Route.ofPath path).resolve entwined.cwd = ["trips.sgm"])
      ∧ ∃ last, Runs entwined outset last ∧ last.step entwined = none ∧ last.stack = []
        ∧ (load {} none entwined "trips").state = (last.state.grammar, last.state.irregulars)
        ∧ ∀ l, Runs entwined outset l → (l.places entwined.cwd).Nodup ∧ l.stack.length ≤ 2 := by
  intro first around second again outset
  have hpath : filePath "trips" = .ok first := by decide +kernel
  obtain ⟨last, _, hruns, hhalt, hempty, _, hload, hall⟩ :=
    (load_halts {} none entwined "trips").2 first hpath
  refine ⟨by decide +kernel, by decide +kernel, by decide, by decide, ?_⟩
  -- the stack holds a place for each file, and there are two stored files
  refine ⟨last, hruns, hhalt, hempty, by rw [hload], fun l hl => ?_⟩
  obtain ⟨_, hnodup, hlength, _⟩ := hall l hl
  exact ⟨hnodup, hlength⟩

end Utterance.Grammar
