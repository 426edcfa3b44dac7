import Utterance.Proofs.CommandLine.Report
import Utterance.Proofs.Grammar.Load
import Utterance.Proofs.Interpreter.Reload

/-!
# The grammars of a request

Most commands start with a front end into which all grammars of the request are loaded. A grammar that
cannot be opened ends the run with an error, whichever of them it is, and so does a command without any.
Other faults come from requests that are not sound: the attention mode or a path is withheld, a path has
no last component, or a file is no text.
-/

namespace Utterance.CommandLine

open Shell

/-! ## Loading -/

/-- A grammar that stands for a path, such that reading comes to no files but texts. -/
def Loadable (view : Files.View) (name : Option String) : Prop :=
  ∃ s p, name = some s ∧ Grammar.filePath s = .ok p
    ∧ ∀ q, Grammar.ComesTo view p q → Grammar.Fit view q

variable {sound : Prop} {start c c' : Console} {r : Request} {i : Interpreter}

/-- A grammar that is loadable stays so while only the log grows. -/
theorem Console.Follows.loadable (h : start.Follows c) {name : Option String}
    (hname : Loadable (viewOf start) name) : Loadable (viewOf c) name := by
  obtain ⟨s, p, rfl, hpath, hfit⟩ := hname
  obtain ⟨earlier, hafter⟩ := h.exists_after
  have hsame : ∀ notes, ∃ earlier, (viewOf c).after notes = (viewOf start).after earlier :=
    fun notes => ⟨_, hafter notes⟩
  exact ⟨s, p, rfl, hpath, fun q hq => (hfit q (hq.of_after hsame)).of_after hsame⟩

/-- The result of loading a grammar says what became of its file. -/
theorem result_loadGrammar (i : Interpreter) (view : Files.View) (path top name : String) :
    let loaded := (i.grammar.load (if i.linked then some i.irregulars else none) view path).result
    let result := (i.loadGrammar view path top name).result
    (∀ f, result = .error f ↔ loaded = .error f) ∧ (result = .ok none ↔ loaded = .ok false) := by
  intro loaded result
  have hread : (i.readGrammar view path).result = loaded := Interpreter.result_readGrammar ..
  unfold result Interpreter.loadGrammar
  simp only
  split
  · rename_i f hf
    simp [← hread, hf]
  · rename_i hf
    simp [← hread, hf]
  · rename_i hf
    simp [← hread, hf]

/-- A grammar that is loadable has a result, whether its file is there or not, and no other fault is that
of a file. -/
theorem loadGrammar_fault {i : Interpreter} {view : Files.View} {path top name : String} {f : Fault}
    (h : (i.loadGrammar view path top name).result = .error f) :
    (∀ e, f ≠ .file e) ∧ ¬ Loadable view (some path) := by
  have hload := ((result_loadGrammar i view path top name).1 f).1 h
  constructor
  · rintro e rfl
    exact Grammar.load_ne_file _ _ _ _ _ hload
  · rintro ⟨s, p, hs, hpath, hfit⟩
    cases hs
    rw [Grammar.load_of_filePath hpath] at hload
    obtain ⟨opened, hopened⟩ := Grammar.exists_loadFile hfit [] .itself _
    cases hopened.symm.trans hload

/-- A grammar file that cannot be opened is not loaded. -/
theorem loadGrammar_refused {i : Interpreter} {view : Files.View} {path top name : String} {p : Path}
    {e : FileError} (hpath : Grammar.filePath path = .ok p)
    (hread : (view.after []).read (.ofPath p) = .error (.file e)) :
    (i.loadGrammar view path top name).result = .ok none := by
  rw [(result_loadGrammar i view path top name).2, Grammar.load_of_filePath hpath,
    Grammar.loadFile_of_not_contains (by simp)]
  simp only [hread]

/-- There is a front end for every attention mode, and its grammar is a new one. -/
theorem exists_fresh {mode : AttentionMode} (h : r.attention = some mode) :
    ∃ fresh notes, (r.settings >>= Interpreter.ofSettings) = .ok (fresh, notes)
      ∧ fresh.grammar = { dictation := 5, maxAlerts := 10 } := by
  obtain ⟨s, hs, hbins, hdictation, halerts⟩ :
      ∃ s, r.settings = .ok s ∧ s.bins = 12 ∧ s.dictation = 5 ∧ s.maxAlerts = 10 := by
    refine ⟨_, by rw [Request.settings, h], ?_⟩
    split <;> exact ⟨rfl, rfl, rfl⟩
  -- there are bins, so a vocabulary can be made with them
  obtain ⟨vocabulary, hvocabulary⟩ : ∃ v, Vocabulary.ofBins s.bins s.substitute = .ok v :=
    ⟨_, by rw [Vocabulary.ofBins, dif_neg (by omega)]⟩
  have hfresh : (r.settings >>= Interpreter.ofSettings) = Interpreter.ofSettings s := by
    rw [hs]
    rfl
  rw [hfresh, Interpreter.ofSettings, hvocabulary]
  refine ⟨_, _, rfl, ?_⟩
  simp only [hdictation, halerts]

/-- Loads one grammar of a request. -/
def loadOne (r : Request) (i : Interpreter) (path : Option String) : Shell Interpreter := do
  let path ← demand (path.elim (.error .pathWithheld) .ok)
  let (i, result) ← settle (i.loadGrammar (← view) path "" (r.robotName.getD ""))
  match ← demand result with
  | some _ => return i
  | none => fail ("cannot read grammar " ++ path)

/-- The front end of a request is a fresh one into which the grammars are loaded, one after the
other. -/
theorem build_eq (r : Request) :
    build r = (do
      let (start, notes) ← demand (r.settings >>= Interpreter.ofSettings)
      write notes
      r.grammars.foldlM (loadOne r) start) := rfl

/-! ## Grammars that can be loaded -/

/-- A grammar that can be loaded is loaded. Nothing but the output of the program changes, as there
is no log to be written to. -/
theorem exists_loadOne {path : String} {o : Outcome Interpreter (Option Nat)} {n : Nat}
    (hlog : c.log.file = none)
    (hloaded : i.loadGrammar (.still c.files) path "" (r.robotName.getD "") = o)
    (hn : o.result = .ok (some n)) :
    ∃ out, loadOne r i (some path) c = .ok o.state { c with out } := by
  obtain ⟨out, hout⟩ := exists_write hlog o.notes
  refine ⟨out, ?_⟩
  have hpath : demand ((some path).elim (.error .pathWithheld) .ok) c = .ok path c := rfl
  have hview : view c = .ok (.still c.files) c := by
    rw [← viewOf_of_no_log hlog]
    rfl
  unfold loadOne
  rw [bind_of_ok hpath, bind_of_ok hview, hloaded]
  unfold settle
  rw [bind_assoc, bind_of_ok hout, hn]
  rfl

/-- A command that needs one grammar, which can be loaded, comes to it. Besides the interpreter only
the output may have grown. -/
theorem exists_buildLoaded {mode : AttentionMode} {path : String}
    (hattention : r.attention = some mode) (hgrammars : r.grammars = [some path])
    (hlog : c.log.file = none)
    (hload : ∀ i : Interpreter, i.grammar = { dictation := 5, maxAlerts := 10 } →
      ∃ n, (i.loadGrammar (.still c.files) path "" (r.robotName.getD "")).result = .ok (some n)) :
    ∃ (fresh : Interpreter) (out : String), fresh.grammar = { dictation := 5, maxAlerts := 10 }
      ∧ buildLoaded r c
        = .ok (fresh.loadGrammar (.still c.files) path "" (r.robotName.getD "")).state { c with out } := by
  obtain ⟨fresh, notes, hfresh, hgrammar⟩ := exists_fresh hattention
  obtain ⟨before, hbefore⟩ := exists_write hlog notes
  obtain ⟨n, hn⟩ := hload fresh hgrammar
  obtain ⟨out, hout⟩ := @exists_loadOne { c with out := before } r fresh path _ n hlog rfl hn
  refine ⟨fresh, out, hgrammar, ?_⟩
  unfold buildLoaded
  rw [hgrammars, if_neg (by simp), build_eq, hfresh, hgrammars,
    bind_of_ok (x := demand (.ok (fresh, notes))) rfl]
  show (write notes >>= _) c = _
  rw [bind_of_ok hbefore, List.foldlM_cons, bind_of_ok hout]
  rfl

/-! ## Grammars that cannot be opened -/

namespace Reports

/-- A grammar is loaded, or what is wrong with it is told: its name is withheld, its file cannot be
opened, or something that it includes cannot be decoded. -/
theorem loadOne {name : Option String} (h : sound → Loadable (viewOf start) name) (i : Interpreter) :
    Reports sound start (loadOne r i name) fun _ => True := by
  have hpath : ∀ f, name.elim (.error .pathWithheld) Except.ok = .error f →
      (∀ e, f ≠ Fault.file e) ∧ ¬ sound := by
    intro f hf
    -- only a name that is withheld is no path
    cases name with
    | none =>
      cases hf
      refine ⟨nofun, fun hsound => ?_⟩
      obtain ⟨s, p, hnone, -⟩ := h hsound
      cases hnone
    | some path => cases hf
  apply (demand hpath).bind
  intro path hok
  cases name with
  | none => cases hok
  -- the path is there; what follows is a look at the files, the loading, and its result
  | some given =>
    rw [← Except.ok.inj hok]
    apply view.bind
    rintro _ ⟨c, hc, rfl⟩
    apply (settle _).bind
    rintro _ rfl
    apply (demand fun f hf => ?_).bind
    · intro opened _
      cases opened with
      | none => exact fail _
      | some n => exact .pure trivial
    · obtain ⟨hfile, hfault⟩ := loadGrammar_fault hf
      exact ⟨hfile, fun hsound => hfault (hc.loadable (h hsound))⟩

/-- A grammar that cannot be opened ends the run. It has no number of productions, and the program
takes that for a failure. -/
theorem loadOne_never {path : String} {p : Path} {e : FileError}
    (hpath : Grammar.filePath path = .ok p)
    (hread : start.files.read (.ofPath p) = .error (.file e)) (i : Interpreter) :
    Reports sound start (CommandLine.loadOne r i (some path)) fun _ => False := by
  apply (demand_ok path).bind
  rintro _ rfl
  apply view.bind
  rintro _ ⟨c, hc, rfl⟩
  have hnone : (i.loadGrammar (viewOf c) path "" (r.robotName.getD "")).result = .ok none := by
    apply loadGrammar_refused hpath
    rw [c.after_nil]
    exact hc.read_eq_error hread
  apply (settle _).bind
  rintro _ rfl
  rw [hnone]
  apply (demand_ok none).bind
  rintro _ rfl
  exact fail _

/-- A front end is made, unless the attention mode is withheld. A sound request tells the mode. -/
theorem fresh (hattention : sound → r.attention.isSome) :
    Reports sound start (Shell.demand (r.settings >>= Interpreter.ofSettings)) fun _ => True := by
  refine (demand fun f hf => ?_).mono fun _ _ => trivial
  cases hmode : r.attention with
  | none =>
    rw [Request.settings, hmode] at hf
    cases hf
    exact ⟨nofun, fun hsound => by simpa [hmode] using hattention hsound⟩
  | some mode =>
    obtain ⟨i, notes, hi, _⟩ := exists_fresh hmode
    cases hi.symm.trans hf

/-- All grammars of a request are loaded, or what is wrong with one of them is told. -/
theorem build (hattention : sound → r.attention.isSome)
    (hloadable : sound → ∀ name ∈ r.grammars, Loadable (viewOf start) name) :
    Reports sound start (build r) fun _ => True := by
  rw [build_eq]
  apply (fresh hattention).bind
  intro i _
  apply (write _).bind
  intro _ _
  exact foldlM (fun name hname => loadOne fun hsound => hloadable hsound name hname) _

/-- One grammar that cannot be opened ends the run. Those before it may end the run already, and
those behind it are not loaded any more. -/
theorem build_never (hattention : sound → r.attention.isSome)
    (hloadable : sound → ∀ name ∈ r.grammars, Loadable (viewOf start) name)
    {path : String} {p : Path} {e : FileError} (hname : some path ∈ r.grammars)
    (hpath : Grammar.filePath path = .ok p)
    (hread : start.files.read (.ofPath p) = .error (.file e)) :
    Reports sound start (CommandLine.build r) fun _ => False := by
  rw [build_eq]
  apply (fresh hattention).bind
  intro i _
  apply (write _).bind
  intro _ _
  exact foldlM_never hname (fun name hname => loadOne fun hsound => hloadable hsound name hname)
    (loadOne_never hpath hread) _

/-- A front end with a grammar is made, or what is wrong is told. -/
theorem buildLoaded (hattention : sound → r.attention.isSome)
    (hloadable : sound → ∀ name ∈ r.grammars, Loadable (viewOf start) name) :
    Reports sound start (buildLoaded r) fun _ => True := by
  unfold CommandLine.buildLoaded
  split
  · exact fail _
  · exact build hattention hloadable

/-- One grammar that cannot be opened ends the run here as well. -/
theorem buildLoaded_never (hattention : sound → r.attention.isSome)
    (hloadable : sound → ∀ name ∈ r.grammars, Loadable (viewOf start) name)
    {path : String} {p : Path} {e : FileError} (hname : some path ∈ r.grammars)
    (hpath : Grammar.filePath path = .ok p)
    (hread : start.files.read (.ofPath p) = .error (.file e)) :
    Reports sound start (CommandLine.buildLoaded r) fun _ => False := by
  unfold CommandLine.buildLoaded
  split
  · exact fail _
  · exact build_never hattention hloadable hname hpath hread

end Reports

end Utterance.CommandLine
