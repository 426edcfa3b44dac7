import Utterance.Grammar.Load
import Utterance.Proofs.Grammar.Script

/-!
# Files that cannot be loaded

A grammar file that cannot be opened is reported, and nothing is read: the rules, the attention phrases
and the irregular forms are what they were. An included file that cannot be opened is reported, too, and
reading goes on. So loading has a result, unless a path cannot be handed to the file system or a file on
the way is no text. But a first file is remembered before it is opened, and so even if it is not there.
-/

namespace Utterance

/-- A path that can be handed to the file system is read, or there is an obstacle on the way. Only a
path with a null character fails otherwise. -/
theorem Files.exists_of_read_eq_error {fs : Files} {r : Route} {fault : Fault}
    (hr : wellFormed r = true) (h : fs.read r = .error fault) : ∃ error, fault = .file error := by
  unfold read at h
  rw [hr, Bool.not_true, if_neg Bool.false_ne_true] at h
  split at h
  · cases h
    exact ⟨_, rfl⟩
  · split at h
    · split at h
      · cases h
        exact ⟨_, rfl⟩
      · cases h
    · cases h
      exact ⟨_, rfl⟩

namespace Grammar

variable {view view' : Files.View} {path p : Path} {nested : Path → Loading → Loading × Except Fault Bool}

/-! ## Files that reading comes to -/

/-- The files that reading one file comes to: the file itself, and what the lines of such files
include. -/
inductive ComesTo (view : Files.View) (path : Path) : Path → Prop where
  | itself : ComesTo view path path
  | included {p extra : Path} {notes : Journal} {content : Content} {lines : List String}
      (comes : ComesTo view path p) (read : (view.after notes).read (.ofPath p) = .ok content)
      (hlines : content.lines = .ok lines) (mem : extra ∈ includes p lines) : ComesTo view path extra

/-- A path that can be handed to the file system and leads to no file but a text. -/
structure Fit (view : Files.View) (p : Path) : Prop where
  wellFormed : Files.wellFormed (.ofPath p) = true
  text : ∀ notes content, (view.after notes).read (.ofPath p) = .ok content → ∃ s, content = .text s

/-- Reading comes to the same files if the journal was written to before. -/
theorem ComesTo.of_after (hafter : ∀ notes, ∃ earlier, view'.after notes = view.after earlier)
    (h : ComesTo view' path p) : ComesTo view path p := by
  induction h with
  | itself => exact .itself
  | included _ hread hlines hmem ih =>
    obtain ⟨earlier, hsame⟩ := hafter _
    rw [hsame] at hread
    exact .included ih hread hlines hmem

/-- Whether paths fit depends on what the file system shows later too, so what shows no more of it
fits as well. -/
theorem Fit.of_after (hafter : ∀ notes, ∃ earlier, view'.after notes = view.after earlier)
    (h : Fit view p) : Fit view' p := by
  refine ⟨h.wellFormed, fun notes content hread => ?_⟩
  obtain ⟨earlier, hsame⟩ := hafter notes
  rw [hsame] at hread
  exact h.text earlier content hread

/-! ## Lines -/

/-- Lines are read to the end, unless a fault of an included file stops it. So a fault can be
followed back to the file that it comes from. -/
theorem loadLines_cases (lines : List String) (sec : Section) (number : Nat) (s : Loading) :
    (loadLines nested path sec number lines s).2 = .ok true
      ∨ ∃ extra ∈ includes path lines, ∃ s' fault, (nested extra s').2 = .error fault
        ∧ (loadLines nested path sec number lines s).2 = .error fault := by
  induction lines generalizing sec number s with
  | nil => exact .inl rfl
  | cons raw lines ih =>
    -- whatever is done with a line, the lines after it decide, unless it is a nested file that stops
    have hrest : ∀ sec number s, (loadLines nested path sec number lines s).2 = .ok true
        ∨ ∃ extra ∈ includes path (raw :: lines), ∃ s' fault, (nested extra s').2 = .error fault
          ∧ (loadLines nested path sec number lines s).2 = .error fault := by
      intro sec number s
      refine (ih sec number s).imp_right ?_
      rintro ⟨extra, hextra, hstops⟩
      exact ⟨extra, includes_cons path raw lines ▸ List.mem_append_right _ hextra, hstops⟩
    cases hincluded : included? path (Line.clean raw) with
    | none =>
      rw [loadLines_cons_of_none hincluded]
      exact hrest ..
    | some extra =>
      have hextra : extra ∈ includes path (raw :: lines) := by
        rw [includes_cons, hincluded]
        exact List.mem_append_left _ (List.mem_singleton_self extra)
      rw [loadLines_cons_of_some hincluded]
      rcases hinner : nested extra s with ⟨inner, fault | opened⟩
      · exact .inr ⟨extra, hextra, s, fault, by rw [hinner], rfl⟩
      · cases opened <;> exact hrest ..

/-! ## Files -/

/-- A file that cannot be opened leaves only a note: neither rules nor irregular forms are touched. -/
theorem loadFile_of_false {stack : List (List String)} {s : Loading}
    (h : (loadFile view stack path s).2 = .ok false) :
    (loadFile view stack path s).1.grammar = s.grammar
      ∧ (loadFile view stack path s).1.irregulars = s.irregulars := by
  by_cases hcycle : stack.contains ((Route.ofPath path).resolve view.cwd) = true
  · rw [loadFile, dif_pos hcycle]
    exact ⟨rfl, rfl⟩
  · rw [loadFile_of_not_contains hcycle] at h ⊢
    split at h
    · exact ⟨rfl, rfl⟩
    · cases h
    · rename_i content _
      cases hlines : content.lines with
      | error fault =>
        rw [hlines] at h
        cases h
      | ok lines =>
        -- once a file is open, its lines never tell that it could not be opened
        rw [hlines] at h
        rcases loadLines_cases lines .none 1 _ with htrue | ⟨_, _, _, _, _, hfault⟩
        · rw [htrue] at h
          cases h
        · rw [hfault] at h
          cases h

/-- If all files that reading comes to are texts, it has a result. -/
theorem exists_loadFile (hfit : ∀ q, ComesTo view path q → Fit view q) (stack : List (List String))
    (hp : ComesTo view path p) (s : Loading) :
    ∃ opened, (loadFile view stack p s).2 = .ok opened := by
  -- a nested file leaves fewer stored files that are not being read
  induction hn : unopened view.places stack using Nat.strongRecOn generalizing stack p s with
  | _ n ih =>
    subst hn
    by_cases hcycle : stack.contains ((Route.ofPath p).resolve view.cwd) = true
    · rw [loadFile, dif_pos hcycle]
      exact ⟨false, rfl⟩
    · rw [loadFile_of_not_contains hcycle]
      cases hread : (view.after s.notes).read (.ofPath p) with
      | error fault =>
        obtain ⟨error, rfl⟩ := Files.exists_of_read_eq_error (hfit p hp).wellFormed hread
        exact ⟨false, rfl⟩
      | ok content =>
        obtain ⟨text, rfl⟩ := (hfit p hp).text _ _ hread
        have hless := unopened_cons_lt (Files.View.resolve_mem_places hread) (by simpa using hcycle)
        refine ⟨true, (loadLines_cases _ _ _ _).resolve_right ?_⟩
        -- a fault would come from an included file, and that one has a result
        rintro ⟨extra, hextra, s', fault, hfault, _⟩
        obtain ⟨opened, hopened⟩ := ih _ hless _ (.included hp hread rfl hextra) s' rfl
        rw [hfault] at hopened
        cases hopened

/-- What stops a loading is never that a file cannot be opened. Such a file is noted and passed
over, also inside others. -/
theorem loadFile_ne_file (view : Files.View) (stack : List (List String)) (p : Path) (s : Loading)
    (e : FileError) : (loadFile view stack p s).2 ≠ .error (.file e) := by
  induction hn : unopened view.places stack using Nat.strongRecOn generalizing stack p s with
  | _ n ih =>
    subst hn
    by_cases hcycle : stack.contains ((Route.ofPath p).resolve view.cwd) = true
    · rw [loadFile, dif_pos hcycle]
      simp
    · rw [loadFile_of_not_contains hcycle]
      cases hread : (view.after s.notes).read (.ofPath p) with
      | error fault => cases fault <;> simp
      | ok content =>
        cases content with
        | bytes bs => simp [Content.lines]
        | text t =>
          have hless := unopened_cons_lt (Files.View.resolve_mem_places hread) (by simpa using hcycle)
          simp only [Content.lines]
          -- only a nested file can stop the lines, and it is one more of those that are being read
          rcases loadLines_cases (Text.lines t) .none 1 _ with htrue | ⟨extra, _, s', fault, hfault, hlines⟩
          · rw [htrue]
            simp
          · rw [hlines]
            intro heq
            cases heq
            exact ih _ hless _ extra s' rfl hfault

/-! ## Loading -/

/-- Loading a name that can be made a path reads the file at that path. -/
theorem load_of_filePath {g : Grammar} {irregulars : Option Irregulars} {name : String}
    (hpath : filePath name = .ok p) :
    let loaded := loadFile view [] p { grammar := g.onPath p, irregulars }
    g.load irregulars view name
      = ⟨(loaded.1.grammar, loaded.1.irregulars), loaded.2, loaded.1.notes⟩ := by
  unfold load
  rw [hpath]
  rfl

/-- Making a path of a name does not touch the file system, so it has no fault of a file. -/
theorem filePath_ne_file (name : String) (e : FileError) : filePath name ≠ .error (.file e) := by
  unfold filePath Path.withExtension Path.withName
  simp only
  split
  · split <;> simp
  · simp

/-- What stops the loading of a grammar is never that its file cannot be opened. -/
theorem load_ne_file (g : Grammar) (irregulars : Option Irregulars) (view : Files.View)
    (name : String) (e : FileError) : (g.load irregulars view name).result ≠ .error (.file e) := by
  intro h
  unfold load at h
  split at h
  · rename_i fault hpath
    exact filePath_ne_file name e (hpath.trans (congrArg _ (Except.error.inj h)))
  · exact loadFile_ne_file _ _ _ _ _ h

/-- A file that cannot be opened leaves the rules, the attention phrases and the irregular forms as they
were, and the whole grammar if a file was loaded into it before. There is a result, whether the file can
be opened or not, if the path has a last component and all files that reading comes to are texts at
paths that can be handed to the file system. -/
theorem load_fails_cleanly (g : Grammar) (irregulars : Option Irregulars) (view : Files.View)
    (name : String) :
    let o := g.load irregulars view name
    (o.result = .ok false →
        o.state.1.productions = g.productions ∧ o.state.1.alerts = g.alerts ∧ o.state.2 = irregulars
          ∧ (g.path.isSome = true → o.state.1 = g))
      ∧ ∀ p, filePath name = .ok p → (∀ q, ComesTo view p q → Fit view q) →
        ∃ opened, o.result = .ok opened := by
  intro o
  constructor
  -- without a last component there is no path, and that is another fault
  · intro hfalse
    cases hpath : filePath name with
    | error fault =>
      unfold o load at hfalse
      rw [hpath] at hfalse
      cases hfalse
    | ok p =>
      rw [show o = _ from load_of_filePath hpath] at hfalse ⊢
      obtain ⟨hgrammar, hirregulars⟩ := loadFile_of_false hfalse
      refine ⟨?_, ?_, hirregulars, fun hsome => ?_⟩
      · rw [hgrammar]
        rfl
      · rw [hgrammar]
        rfl
      · obtain ⟨first, hfirst⟩ := Option.isSome_iff_exists.1 hsome
        rw [hgrammar]
        exact onPath_of_path_eq_some hfirst
  -- as every file that is come to can be decoded, no other fault is left
  · intro p hpath hfit
    rw [show o = _ from load_of_filePath hpath]
    exact exists_loadFile hfit [] .itself _

/-- A file that includes another one which is not there, and a file that is no text. -/
def scraps : Files :=
  { entries := [(["facts.sgm"], .text "=[HQ]\n  big\n#include \"gone\"\n"),
      (["noise.sgm"], .bytes [0xff])] }

/-- The first file of the example can be read. -/
theorem read_scraps_facts :
    scraps.read (.ofPath ⟨"", ["facts.sgm"]⟩)
      = .ok (.text "=[HQ]\n  big\n#include \"gone\"\n") := by
  decide +kernel

theorem read_scraps_gone :
    scraps.read (.ofPath ⟨"", ["gone"]⟩) = .error (.file (.blocked .missing "gone")) := by
  decide +kernel

/-- Reading the one comes to the other, which is not there, and so no further. -/
theorem comesTo_scraps {q : Path} (h : ComesTo (.still scraps) ⟨"", ["facts.sgm"]⟩ q) :
    q = ⟨"", ["facts.sgm"]⟩ ∨ q = ⟨"", ["gone"]⟩ := by
  induction h with
  | itself => exact .inl rfl
  | @included p extra _ content lines _ hread hlines hmem ih =>
    rcases ih with rfl | rfl
    · have hcontent := Except.ok.inj (hread.symm.trans read_scraps_facts)
      subst hcontent
      have hincludes : includes ⟨"", ["facts.sgm"]⟩ (Text.lines "=[HQ]\n  big\n#include \"gone\"\n")
          = [⟨"", ["gone"]⟩] := by decide +kernel
      rw [← Except.ok.inj hlines, hincludes] at hmem
      exact .inr (List.mem_singleton.1 hmem)
    · cases hread.symm.trans read_scraps_gone

/-- Both paths that the example comes to fit. -/
theorem fit_scraps {q : Path} (h : ComesTo (.still scraps) ⟨"", ["facts.sgm"]⟩ q) :
    Fit (.still scraps) q := by
  rcases comesTo_scraps h with rfl | rfl
  · refine ⟨by decide +kernel, fun _ content hread => ?_⟩
    exact ⟨_, Except.ok.inj (hread.symm.trans read_scraps_facts)⟩
  · refine ⟨by decide +kernel, fun _ content hread => ?_⟩
    cases hread.symm.trans read_scraps_gone

/-- A file that is not there cannot be loaded. -/
theorem load_of_read_eq_error {g : Grammar} {irregulars : Option Irregulars} {files : Files}
    {name : String} {error : FileError} (hpath : filePath name = .ok p)
    (hread : files.read (.ofPath p) = .error (.file error)) :
    (g.load irregulars (.still files) name).result = .ok false
      ∧ (g.load irregulars (.still files) name).state.1 = g.onPath p := by
  rw [load_of_filePath hpath, loadFile_still (by simp), hread]
  exact ⟨rfl, rfl⟩

/-- The first file is loaded though what it includes is not there, and a file that is not there leaves
a grammar into which that file was loaded as it was. -/
theorem load_fails_cleanly_scraps :
    let g : Grammar := { path := some ⟨"", ["facts.sgm"]⟩ }
    (∀ q, ComesTo (.still scraps) ⟨"", ["facts.sgm"]⟩ q → Fit (.still scraps) q)
      ∧ (∃ opened, (g.load none (.still scraps) "facts").result = .ok opened)
      ∧ (g.load none (.still scraps) "gone.sgm").result = .ok false
      ∧ (g.load none (.still scraps) "gone.sgm").state.1 = g := by
  intro g
  have hpath : filePath "facts" = .ok ⟨"", ["facts.sgm"]⟩ := by decide +kernel
  have hgone : filePath "gone.sgm" = .ok ⟨"", ["gone.sgm"]⟩ := by decide +kernel
  have hread : scraps.read (.ofPath ⟨"", ["gone.sgm"]⟩)
      = .error (.file (.blocked .missing "gone.sgm")) := by decide +kernel
  have hfalse := (@load_of_read_eq_error _ g none _ _ _ hgone hread).1
  obtain ⟨_, _, _, hsame⟩ := (load_fails_cleanly g none (.still scraps) "gone.sgm").1 hfalse
  exact ⟨fun _ => fit_scraps,
    (load_fails_cleanly g none (.still scraps) "facts").2 _ hpath fun _ => fit_scraps, hfalse,
    hsame rfl⟩

/-- A first file is remembered even if it is not there, and there is no result for a file that is no
text, for a path with no last component, and for one that cannot be handed to the file system. -/
theorem load_fails_uncleanly :
    let g : Grammar := {}
    ((g.load none (.still scraps) "gone.sgm").result = .ok false ∧ g.path = none
        ∧ (g.load none (.still scraps) "gone.sgm").state.1.path = some ⟨"", ["gone.sgm"]⟩)
      ∧ (g.load none (.still scraps) "noise").result = .error .undecodable
      ∧ (g.load none (.still scraps) "").result = .error (.refused (.emptyName "."))
      ∧ (g.load none (.still scraps) "a\x00").result = .error (.refused .nullInPath) := by
  intro g
  have hgone : filePath "gone.sgm" = .ok ⟨"", ["gone.sgm"]⟩ := by decide +kernel
  have hread : scraps.read (.ofPath ⟨"", ["gone.sgm"]⟩)
      = .error (.file (.blocked .missing "gone.sgm")) := by decide +kernel
  obtain ⟨hfalse, hstate⟩ := @load_of_read_eq_error _ g none _ _ _ hgone hread
  have hnoise : filePath "noise" = .ok ⟨"", ["noise.sgm"]⟩ := by decide +kernel
  have hbytes : scraps.read (.ofPath ⟨"", ["noise.sgm"]⟩) = .ok (.bytes [0xff]) := by decide +kernel
  have hnull : filePath "a\x00" = .ok ⟨"", ["a\x00.sgm"]⟩ := by decide +kernel
  have hrefused : scraps.read (.ofPath ⟨"", ["a\x00.sgm"]⟩) = .error (.refused .nullInPath) := by
    decide +kernel
  -- bytes that are no text, a name without a last component, and one with a null character
  refine ⟨⟨hfalse, rfl, by rw [hstate]; rfl⟩, ?_, ?_, ?_⟩
  · rw [load_of_filePath hnoise, loadFile_still (by simp), hbytes]
    rfl
  · have hempty : filePath "" = .error (.refused (.emptyName ".")) := by decide +kernel
    unfold load
    rw [hempty]
  · rw [load_of_filePath hnull, loadFile_still (by simp), hrefused]

end Grammar

end Utterance
