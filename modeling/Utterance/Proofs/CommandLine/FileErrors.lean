import Utterance.Proofs.CommandLine.Build
import Utterance.Proofs.Grammar.Expansion
import Utterance.Proofs.Grammar.Rules

/-!
# Files that cannot be opened

Every command knows the files that it has to read and to write. If one of them cannot be opened, the
exit code tells so, except for a few outputs that no command looks after: those of `enable`, `disable`,
`orphans` and `harvest-lex`, and the log. The first two then succeed all the same, and the others stop with
an uncaught fault.
-/

namespace Utterance.CommandLine

open Shell

/-! ## The files of a command -/

/-- What a command does with a file. -/
inductive Access where
  | read (route : Route)
  | write (route : Route)
  deriving DecidableEq, Repr

/-- Whether a file cannot be opened. -/
def Access.Refused (files : Files) : Access → Prop
  | .read route => ∃ e, files.read route = .error (.file e)
  | .write route => ∃ e, files.checkWritable route = .error (.file e)

/-- The access to a file that is named, unless the name is empty. -/
def Access.named (access : String → Access) (name : Option String) : List Access :=
  (name.filter (!·.isEmpty)).toList.map access

/-- There is an access to a file that is named, if the name is not empty. -/
theorem Access.mem_named {f : String → Access} {name : Option String} {access : Access} :
    access ∈ Access.named f name ↔ ∃ s, name.filter (!·.isEmpty) = some s ∧ access = f s := by
  simp [named, eq_comm]

/-- The same, where an absent name counts as an empty one. -/
theorem Access.mem_named_getD {f : String → Access} {name : Option String}
    (h : (name.getD "").isEmpty = false) : f (name.getD "") ∈ Access.named f name := by
  cases name with
  | none => cases h
  | some s => exact mem_named.2 ⟨s, Option.filter_eq_some_iff.2 ⟨rfl, by simpa using h⟩, rfl⟩

/-- The access to a grammar file; none if the name stands for no path. -/
def Access.grammar? (name : Option String) : Option Access :=
  (name.bind fun s => (Grammar.filePath s).toOption).map fun p => .read (.ofPath p)

/-- A grammar is read along the path that its name stands for. -/
theorem Access.of_grammar?_eq_some {name : Option String} {access : Access}
    (h : Access.grammar? name = some access) :
    ∃ path p, name = some path ∧ Grammar.filePath path = .ok p ∧ access = .read (.ofPath p) := by
  obtain ⟨p, hp, rfl⟩ := Option.map_eq_some_iff.1 h
  obtain ⟨path, rfl, hpath⟩ := Option.bind_eq_some_iff.1 hp
  cases hfound : Grammar.filePath path with
  | error e =>
    rw [hfound] at hpath
    cases hpath
  | ok q =>
    rw [hfound] at hpath
    cases hpath
    exact ⟨path, p, rfl, hfound, rfl⟩

/-- The grammars that are loaded for a command. -/
def Command.grammars (r : Request) : Command → List (Option String)
  | .loadGrammar path _ => r.grammars ++ [some path]
  | .setRule .. | .parse _ | .dumpRules _ | .words _ | .orphans _ => r.grammars
  | .harvest _ | .check _ | .invert .. => []

/-- The files of a command that it looks after, apart from grammars. A file that is opened twice is there
as it is opened first. -/
def Command.heeded : Command → List Access
  | .loadGrammar .. | .setRule .. | .orphans _ => []
  | .parse p => Access.named (fun s => .read (.ofString s)) p.file
  | .dumpRules path | .words path => [.write (.ofString path)]
  | .harvest job => Access.named (fun s => .read (.ofString s)) (some job.subject)
  | .check job =>
    match job.out.filter (!·.isEmpty) with
    | none => [.read (.ofString job.subject)]
    | some out => [.read (.ofPath (.ofString job.subject)), .write (.ofPath (.ofString out))]
  | .invert job irregulars =>
    Access.named (fun s => .read (.ofString s)) irregulars
      ++ .read (.ofString job.subject) :: Access.named (fun s => .write (.ofString s)) job.out

/-- The files of a command that it does not look after. -/
def Command.neglected : Command → List Access
  | .setRule _ job => Access.named (fun s => .write (.ofString s)) job.out
  | .orphans out => Access.named (fun s => .write (.ofPath (.ofString s))) out
  | .harvest job => (derivedPath job).toOption.toList.map fun out => .write (.ofPath (.ofString out))
  | .loadGrammar .. | .parse _ | .dumpRules _ | .words _ | .check _ | .invert .. => []

/-- The files that a command has to read and to write. Those that a grammar includes are not among them:
a grammar is loaded without them if need be. -/
def Command.accesses (r : Request) (command : Command) : List Access :=
  (command.grammars r).filterMap Access.grammar? ++ command.heeded ++ command.neglected

/-- A route that can be handed to the file system and leads to no file but a text. -/
structure Legible (view : Files.View) (route : Route) : Prop where
  wellFormed : Files.wellFormed route = true
  text : ∀ notes content, (view.after notes).read route = .ok content → ∃ s, content = .text s

/-- A request that nothing is wrong with but that files may not be there. -/
structure Request.Sound (r : Request) (command : Command) (view : Files.View) : Prop where
  /-- The attention mode is not withheld. -/
  attention : r.attention.isSome
  loadable : ∀ name ∈ command.grammars r, Loadable view name
  legible : ∀ route, .read route ∈ command.heeded → Legible view route

variable {sound : Prop} {start c c' : Console} {r : Request} {route : Route} {i : Interpreter}

/-! ## Texts -/

/-- What is legible at the beginning is legible later, as the log is the only file that grows. -/
theorem Console.Follows.legible (h : start.Follows c) (hroute : Legible (viewOf start) route) :
    Legible (viewOf c) route := by
  obtain ⟨earlier, hafter⟩ := h.exists_after
  refine ⟨hroute.wellFormed, fun notes content hread => ?_⟩
  rw [hafter] at hread
  exact hroute.text _ _ hread

/-- The lines of a legible file are there, or the file cannot be opened. They cannot fail to be
decoded, since a legible file holds a text. -/
theorem Legible.exists_of_lines_eq_error {f : Fault} (h : Legible (viewOf c) route)
    (hlines : (c.files.read route >>= Content.lines) = .error f) : ∃ e, f = .file e := by
  cases hread : c.files.read route with
  | error fault =>
    rw [hread] at hlines
    cases hlines
    exact Files.exists_of_read_eq_error h.wellFormed hread
  | ok content =>
    rw [← c.after_nil] at hread
    obtain ⟨s, rfl⟩ := h.text [] content hread
    rw [← c.after_nil, hread] at hlines
    cases hlines

/-- A fault other than that of a file cannot come of a legible one. -/
theorem Console.Follows.not_sound (hc : start.Follows c) (h : sound → Legible (viewOf start) route)
    {f : Fault} (hlines : (c.files.read route >>= Content.lines) = .error f)
    (hfile : ∀ e, f ≠ .file e) : ¬ sound := by
  intro hsound
  obtain ⟨e, rfl⟩ := (hc.legible (h hsound)).exists_of_lines_eq_error hlines
  exact hfile e rfl

/-- A fault of loading irregular forms is one of decoding their file; that the file cannot be opened
is none. -/
theorem lines_eq_error_of_load {m : Irregulars} {files : Files} {append : Bool} {f : Fault}
    (h : (m.load files route append).result = .error f) :
    (∀ e, f ≠ .file e) ∧ (files.read route >>= Content.lines) = .error f := by
  unfold Irregulars.load at h
  cases hread : files.read route with
  | error fault =>
    rw [hread] at h
    cases fault <;> cases h <;> exact ⟨nofun, rfl⟩
  | ok content =>
    rw [hread] at h
    cases content with
    | text s => cases h
    | bytes bs =>
      cases h
      exact ⟨nofun, rfl⟩

/-- A file of irregular forms that cannot be opened is not loaded, and that is the result. -/
theorem load_of_refused {m : Irregulars} {files : Files} {append : Bool} {e : FileError}
    (h : files.read route = .error (.file e)) : (m.load files route append).result = .ok none := by
  unfold Irregulars.load
  rw [h]

/-- Deriving the forms of a lexicon faults where its lines cannot be decoded. -/
theorem lines_eq_error_of_prepare {m : Irregulars} {files : Files} {f : Fault}
    (h : (Lexicon.prepare m files route true).result = .error f) (hfile : ∀ e, f ≠ .file e) :
    (files.read route >>= Content.lines) = .error f := by
  rw [Lexicon.prepare, if_pos rfl] at h
  cases hload : (m.load files route false).result with
  | error fault =>
    simp only [hload, Except.bind] at h
    rw [← Except.error.inj h]
    exact (lines_eq_error_of_load hload).2
  | ok opened =>
    simp only [hload, Except.bind] at h
    -- a file that could not be opened is a fault of its own, which is excluded here
    cases opened with
    | none => exact (hfile _ (Except.error.inj h).symm).elim
    | some n => cases h

/-- A lexicon that cannot be opened is told of as one that is not there. -/
theorem prepare_of_refused {m : Irregulars} {files : Files} {e : FileError}
    (h : files.read route = .error (.file e)) :
    (Lexicon.prepare m files route true).result = .error (.file (.noLexicon route.shown)) := by
  rw [Lexicon.prepare, if_pos rfl]
  simp only [load_of_refused h, Except.bind]

/-- Reading the sections of a lexicon faults just where reading its lines does. -/
theorem lines_eq_error_of_readSections {files : Files} {heads : List String} {f : Fault}
    (h : Lexicon.readSections files route heads = .error f) :
    (files.read route >>= Content.lines) = .error f := by
  unfold Lexicon.readSections at h
  cases hread : files.read route with
  | error fault =>
    rw [hread] at h
    cases h
    rfl
  | ok content =>
    rw [hread] at h
    -- a text has lines, so only bytes can fail
    cases content with
    | text s => cases h
    | bytes bs =>
      cases h
      rfl

/-- A lexicon that cannot be opened has no sections to read. -/
theorem readSections_of_refused {files : Files} {heads : List String} {f : Fault}
    (h : files.read route = .error f) : Lexicon.readSections files route heads = .error f := by
  rw [Lexicon.readSections, h]
  rfl

/-! ## Writing -/

/-- What cannot be opened for writing is not written. -/
theorem write_of_refused {files : Files} {f : Fault} (h : files.checkWritable route = .error f)
    (text : String) : files.write route text = .error f := by
  rw [Files.write, h]
  rfl

/-- The log is no help to a file that cannot be written, either. -/
theorem Console.Follows.write_eq_error (hc : start.Follows c) {f : Fault}
    (h : start.files.checkWritable route = .error f) (text : String) :
    c.files.write route text = .error f :=
  write_of_refused ((hc.checkWritable_eq route).trans h) text

namespace Reports

/-! ## Lexicons -/

/-- A table of irregular forms is loaded, or what is wrong with its file is told. A file that cannot
be opened ends the command with a message; one that cannot be decoded is a fault, which a sound
request does not have. -/
theorem loadIrregulars {path : String}
    (h : path.isEmpty = false → sound → Legible (viewOf start) (.ofString path)) :
    Reports sound start (loadIrregulars path) fun _ => True := by
  unfold CommandLine.loadIrregulars
  cases hpath : path.isEmpty with
  | true => exact pure trivial
  | false =>
    apply get.bind
    intro c hc
    apply (settle _).bind
    rintro _ rfl
    apply (demand fun f hf => ?_).bind
    · intro opened _
      cases opened with
      | none => exact fail _
      | some n => exact .pure trivial
    · obtain ⟨hfile, hlines⟩ := lines_eq_error_of_load hf
      exact ⟨hfile, hc.not_sound (h hpath) hlines hfile⟩

/-- A table that cannot be opened ends the run. The table itself reports the missing file as no
count, and the program takes that for a failure. -/
theorem loadIrregulars_never {path : String} {e : FileError} (hpath : path.isEmpty = false)
    (hread : start.files.read (.ofString path) = .error (.file e)) :
    Reports sound start (CommandLine.loadIrregulars path) fun _ => False := by
  unfold CommandLine.loadIrregulars
  rw [hpath]
  apply get.bind
  intro c hc
  apply (settle _).bind
  rintro _ rfl
  rw [load_of_refused (hc.read_eq_error hread)]
  apply (demand_ok none).bind
  rintro _ rfl
  exact fail _

/-- The forms of a lexicon are derived, or what is wrong with its file is told. The file is read
twice, for its irregular forms and for its words, and it is the same file both times. -/
theorem deriveForms (h : sound → Legible (viewOf start) route) (m : Irregulars) :
    Reports sound start (deriveForms Shell.demandFile m route true) fun _ => True := by
  apply get.bind
  intro c hc
  apply (settle _).bind
  rintro _ rfl
  apply (demandFile fun f hf hfile => ?_).bind
  · intro _ _
    apply get.bind
    intro c hc
    -- the second reading, after the journal has grown
    apply (demandFile fun f hf hfile => ?_).bind
    · intro bases _
      apply (write _).bind
      intro _ _
      exact .pure trivial
    · exact hc.not_sound h (lines_eq_error_of_readSections hf) hfile
  · exact hc.not_sound h (lines_eq_error_of_prepare hf hfile) hfile

/-- A lexicon that cannot be opened ends the run. -/
theorem deriveForms_never {e : FileError} (hread : start.files.read route = .error (.file e))
    (m : Irregulars) :
    Reports sound start (CommandLine.deriveForms Shell.demandFile m route true) fun _ => False := by
  apply get.bind
  intro c hc
  apply (settle _).bind
  rintro _ rfl
  rw [prepare_of_refused (hc.read_eq_error hread)]
  exact (demandFile_refused _).bind_never

/-! ## Commands -/

/-- A grammar that cannot be opened ends every command that loads it. -/
theorem run_grammars {command : Command} (hsound : sound → r.Sound command (viewOf start))
    {access : Access} (haccess : access ∈ (command.grammars r).filterMap Access.grammar?)
    (hrefused : access.Refused start.files) :
    Reports sound start (command.run r) fun _ => False := by
  have hattention : sound → r.attention.isSome := fun h => (hsound h).attention
  have hloadable : sound → ∀ name ∈ command.grammars r, Loadable (viewOf start) name :=
    fun h => (hsound h).loadable
  obtain ⟨name, hname, hgrammar⟩ := List.mem_filterMap.1 haccess
  obtain ⟨path, p, rfl, hpath, rfl⟩ := Access.of_grammar?_eq_some hgrammar
  obtain ⟨e, hread⟩ := hrefused
  -- a command starts with its grammars, or has none
  cases command with
  | loadGrammar path listing =>
    exact (@build_never _ _ { r with grammars := r.grammars ++ [some path] } hattention hloadable _ _ _
      hname hpath hread).bind_never
  | setRule | parse | dumpRules | words | orphans =>
    exact (buildLoaded_never hattention hloadable hname hpath hread).bind_never
  | harvest | check | invert => cases hname

/-- A file of sentences that cannot be opened ends the command, once the grammars have been loaded. -/
theorem run_parse {p : Parsing} (hsound : sound → r.Sound (.parse p) (viewOf start))
    {access : Access} (haccess : access ∈ (Command.parse p).heeded)
    (hrefused : access.Refused start.files) :
    Reports sound start ((Command.parse p).run r) fun _ => False := by
  obtain ⟨path, hfile, rfl⟩ := Access.mem_named.1 haccess
  obtain ⟨e, hread⟩ := hrefused
  apply (buildLoaded (fun h => (hsound h).attention) fun h => (hsound h).loadable).bind
  intro i _
  simp only [hfile]
  apply get.bind
  intro c hc
  rw [hc.read_eq_error hread]
  exact (demandFile_refused _).bind_never

/-- A file that the rules cannot be written to ends the command. -/
theorem run_dumpRules {path : String} (hsound : sound → r.Sound (.dumpRules path) (viewOf start))
    (hrefused : (Access.write (.ofString path)).Refused start.files) :
    Reports sound start ((Command.dumpRules path).run r) fun _ => False := by
  obtain ⟨e, hwrite⟩ := hrefused
  apply (buildLoaded (fun h => (hsound h).attention) fun h => (hsound h).loadable).bind
  intro i _
  -- dumping tells a failure by a value, and the command turns it into an exit code
  apply (onFiles (x := .ok none) fun c hc => ?_).bind
  · rintro _ rfl
    apply (demand_ok none).bind
    rintro _ rfl
    exact fail _
  · have hfails := hc.write_eq_error hwrite
    simp [Grammar.dump, hfails]

/-- So does a file that the words cannot be written to. The vocabulary may be built before that, or
the run may have ended while it was. -/
theorem run_words {path : String} (hsound : sound → r.Sound (.words path) (viewOf start))
    (hrefused : (Access.write (.ofString path)).Refused start.files) :
    Reports sound start ((Command.words path).run r) fun _ => False := by
  obtain ⟨e, hwrite⟩ := hrefused
  apply (buildLoaded (fun h => (hsound h).attention) fun h => (hsound h).loadable).bind
  intro i _
  apply (onFiles (x := .error (.file e)) fun c hc => ?_).bind
  · rintro _ rfl
    exact (demandFile_refused e).bind_never
  · have hfails := hc.write_eq_error hwrite
    simp [Vocabulary.writeWords, hfails]

/-- A lexicon that cannot be opened ends the harvest. -/
theorem run_harvest {job : Job} {access : Access} (haccess : access ∈ (Command.harvest job).heeded)
    (hrefused : access.Refused start.files) :
    Reports sound start ((Command.harvest job).run r) fun _ => False := by
  obtain ⟨path, hpath, rfl⟩ := Access.mem_named.1 haccess
  obtain ⟨hsubject, hne⟩ := Option.filter_eq_some_iff.1 hpath
  cases hsubject
  obtain ⟨e, hread⟩ := hrefused
  -- the lexicon is opened as a table of irregular forms before anything else
  exact (loadIrregulars_never (by simpa using hne) hread).bind_never

/-- A check of a lexicon ends early if the lexicon or the file for its forms cannot be opened.
Whichever of the two it is, the check does not come to its report. -/
theorem run_check {job : Job} (hsound : sound → r.Sound (.check job) (viewOf start))
    {access : Access} (haccess : access ∈ (Command.check job).heeded)
    (hrefused : access.Refused start.files) :
    Reports sound start ((Command.check job).run r) fun _ => False := by
  show Reports sound start (runCheck job) _
  have hlegible : ∀ route, .read route ∈ (Command.check job).heeded →
      sound → Legible (viewOf start) route := fun route hroute h => (hsound h).legible route hroute
  unfold runCheck
  unfold Command.heeded at haccess hlegible
  -- with an output the lexicon is opened along its normal form
  cases hout : job.out.filter (!·.isEmpty) with
  | none =>
    simp only [hout, List.mem_singleton] at haccess
    subst haccess
    obtain ⟨e, hread⟩ := hrefused
    exact (deriveForms_never hread {}).bind_never
  | some out =>
    simp only [hout] at haccess hlegible
    apply Reports.bind_never
    rcases List.mem_pair.1 haccess with rfl | rfl
    · obtain ⟨e, hread⟩ := hrefused
      exact (deriveForms_never hread {}).bind_never
    -- the lexicon can be read, so the forms are derived before the output fails
    · obtain ⟨e, hwrite⟩ := hrefused
      apply (deriveForms (hlegible _ (List.mem_cons_self ..)) {}).bind
      intro report _
      apply (onFiles (x := .error (.file e)) fun c hc => ?_).bind
      · rintro _ rfl
        exact demandFile_refused e
      · have hfails := hc.write_eq_error hwrite
        simp [Lexicon.writeReport, hfails]

/-- An inversion ends early if the table, the lexicon or the file for the bases cannot be opened. -/
theorem run_invert {job : Job} {irregulars : Option String}
    (hsound : sound → r.Sound (.invert job irregulars) (viewOf start))
    {access : Access} (haccess : access ∈ (Command.invert job irregulars).heeded)
    (hrefused : access.Refused start.files) :
    Reports sound start ((Command.invert job irregulars).run r) fun _ => False := by
  have hlegible : ∀ route, .read route ∈ (Command.invert job irregulars).heeded →
      sound → Legible (viewOf start) route := fun route hroute h => (hsound h).legible route hroute
  -- the table comes first, then the forms, then the output
  rcases List.mem_append.1 haccess with hfirst | hrest
  · obtain ⟨path, hpath, rfl⟩ := Access.mem_named.1 hfirst
    obtain ⟨rfl, hne⟩ := Option.filter_eq_some_iff.1 hpath
    obtain ⟨e, hread⟩ := hrefused
    exact (loadIrregulars_never (by simpa using hne) hread).bind_never
  · have hfirst : (irregulars.getD "").isEmpty = false →
        .read (.ofString (irregulars.getD "")) ∈ (Command.invert job irregulars).heeded :=
      fun hne => List.mem_append_left _ (Access.mem_named_getD hne)
    apply (loadIrregulars fun hne => hlegible _ (hfirst hne)).bind
    intro m _
    apply get.bind
    intro c hc
    -- the forms are refused, or they are read and the output is refused
    rcases List.mem_cons.1 hrest with rfl | hlast
    · obtain ⟨e, hread⟩ := hrefused
      rw [Lexicon.readForms, readSections_of_refused (hc.read_eq_error hread)]
      exact (demandFile_refused e).bind_never
    · obtain ⟨path, hpath, rfl⟩ := Access.mem_named.1 hlast
      obtain ⟨e, hwrite⟩ := hrefused
      apply (demandFile fun f hf hfile => ?_).bind
      · intro forms _
        apply (write _).bind
        intro _ _
        apply get.bind
        intro c hc
        have hfails := hc.write_eq_error hwrite
        simp only [Lexicon.writeBases, hpath, hfails]
        exact (demandFile_refused e).bind_never
      · refine hc.not_sound (hlegible _ ?_) (lines_eq_error_of_readSections hf) hfile
        exact List.mem_append_right _ (List.mem_cons_self ..)

/-- A command that looks after a file ends early if the file cannot be opened. One case for each
command, as each opens its files in an order of its own. -/
theorem run_refused {command : Command} (hsound : sound → r.Sound command (viewOf start))
    {access : Access} (haccess : access ∈ command.accesses r) (hheeded : access ∉ command.neglected)
    (hrefused : access.Refused start.files) :
    Reports sound start (command.run r) fun _ => False := by
  -- the grammars come first for every command, then what the command itself reads
  rcases List.mem_append.1 haccess with haccess | hneglected
  · rcases List.mem_append.1 haccess with hgrammar | haccess
    · exact run_grammars hsound hgrammar hrefused
    -- the grammars come first in every command that loads some
    · cases command with
      | parse p => exact run_parse hsound haccess hrefused
      | dumpRules path =>
        cases List.mem_singleton.1 haccess
        exact run_dumpRules hsound hrefused
      | words path =>
        cases List.mem_singleton.1 haccess
        exact run_words hsound hrefused
      | harvest job => exact run_harvest haccess hrefused
      | check job => exact run_check hsound haccess hrefused
      | invert job irregulars => exact run_invert hsound haccess hrefused
      | loadGrammar | setRule | orphans => cases haccess
  · exact absurd hneglected hheeded

end Reports

/-! ## Runs -/

/-- A run comes down to its command, once the arguments are read and the log is open. -/
theorem runArgs_eq {args : List String} {command : Command} (hargs : Request.ofArgs args = .ok r)
    (hcommand : r.command = some command)
    (hlog : openLog r.logFile (if r.verbose then .info else .warning) r.debug c = .ok () start) :
    runArgs args c = command.run r start := by
  unfold runArgs
  rw [hargs]
  simp only [hcommand]
  show EStateM.bind _ _ c = _
  rw [EStateM.bind, hlog]

/-- If a file cannot be opened that a command has to read or to write, and that it looks after, then
the run does not succeed, and the fault of the file is no uncaught one. If nothing else is wrong
with the request, the run ends with an exit code other than zero.

The run is followed from the console at its beginning: what is printed and logged on the way changes
nothing about which files can be opened. -/
theorem exit_ne_zero_of_refused {args : List String} {command : Command} {access : Access}
    (hargs : Request.ofArgs args = .ok r) (hcommand : r.command = some command)
    (hlog : openLog r.logFile (if r.verbose then .info else .warning) r.debug c = .ok () start)
    (haccess : access ∈ command.accesses r) (hheeded : access ∉ command.neglected)
    (hrefused : access.Refused start.files) :
    (run args c).2 ≠ .ok 0 ∧ (∀ e, (run args c).2 ≠ .error (.file e))
      ∧ (r.Sound command (viewOf start) → ∃ code, code ≠ 0 ∧ (run args c).2 = .ok code) := by
  have hreports : Reports (r.Sound command (viewOf start)) start (command.run r) fun _ => False :=
    .run_refused id haccess hheeded hrefused
  have hends := hreports.run start (.refl start)
  unfold run
  rw [runArgs_eq hargs hcommand hlog]
  -- the run cannot come to a value, so it ends early and tells
  cases hrun : command.run r start with
  | ok u c' =>
    rw [hrun] at hends
    exact hends.1.elim
  | error stop c' =>
    rw [hrun] at hends
    cases hends with
    | @exit code hcode => exact ⟨by simpa using hcode, by simp, fun _ => ⟨code, hcode, rfl⟩⟩
    | @fault f hfile hsound => exact ⟨by simp, by simpa using hfile, fun h => absurd h hsound⟩

deriving instance DecidableEq for Job, Parsing, Command, Request

/-- A console with a lexicon of one word and a grammar of one rule. -/
def desk : Console :=
  { files :=
      { entries :=
          [(["lex.sgm"], .text "=[AKO]\n  dog\n"), (["rules.sgm"], .text "=[toplevel]\n  go\n")] }
    input := ""
    times := { line := "", start := "", stamp := { id := "", time := "" } } }

/-- A lexicon is checked, but the file for its forms cannot be written: the directory for it is not
there. -/
theorem exit_ne_zero_of_refused_check :
    let args := ["check-morph", "lex.sgm", "--out", "missing/out.sgm"]
    let job : Job := { subject := "lex.sgm", out := some "missing/out.sgm" }
    let r : Request := { command := some (.check job) }
    let access := Access.write (.ofPath (.ofString "missing/out.sgm"))
    ∃ start, Request.ofArgs args = .ok r ∧ openLog none .warning false desk = .ok () start
      ∧ access ∈ (Command.check job).accesses r ∧ access ∉ (Command.check job).neglected
      ∧ access.Refused start.files ∧ r.Sound (.check job) (viewOf start)
      ∧ ∃ code, code ≠ 0 ∧ (run args desk).2 = .ok code := by
  intro args job r access
  obtain ⟨start, hlog, hfiles, hnone⟩ := exists_openLog_none .warning false desk
  have hargs : Request.ofArgs args = .ok r := by decide +kernel
  have haccess : access ∈ (Command.check job).accesses r := by decide +kernel
  have hheeded : access ∉ (Command.check job).neglected := by simp [Command.neglected]
  have hrefused : access.Refused start.files := by
    rw [hfiles]
    exact ⟨.blocked .missing "missing/out.sgm", by decide +kernel⟩
  have hread : desk.files.read (.ofPath (.ofString "lex.sgm")) = .ok (.text "=[AKO]\n  dog\n") := by
    decide +kernel
  -- the run heeds its lexicon and its output, and the lexicon can be read
  have hheeds : (Command.check job).heeded
      = [.read (.ofPath (.ofString "lex.sgm")), .write (.ofPath (.ofString "missing/out.sgm"))] := by
    decide +kernel
  have hsound : r.Sound (.check job) (viewOf start) := by
    refine ⟨rfl, nofun, fun route hroute => ?_⟩
    rw [hheeds] at hroute
    obtain rfl : route = .ofPath (.ofString "lex.sgm") := by simpa using hroute
    refine ⟨by decide +kernel, fun notes content hcontent => ?_⟩
    rw [viewOf_of_no_log hnone, hfiles] at hcontent
    exact ⟨_, Except.ok.inj (hcontent.symm.trans hread)⟩
  obtain ⟨_, _, hexit⟩ := exit_ne_zero_of_refused hargs rfl hlog haccess hheeded hrefused
  exact ⟨start, hargs, hlog, haccess, hheeded, hrefused, hsound, hexit hsound⟩

/-! ## Files that are not looked after -/

/-- A rule that is enabled or disabled is so whether the rules can be written or not. What dumping
gives back is not looked at, so the command ends as if all was well. -/
theorem setRule_of_refused {on : Bool} {job : Job} {out : String} {e : FileError}
    (hbuild : buildLoaded r c = .ok i c')
    (hfound : i.grammar.productions.any (Grammar.matchesHead (some job.subject)) = true)
    (hout : job.out.filter (!·.isEmpty) = some out)
    (hrefused : c'.files.checkWritable (.ofString out) = .error (.file e)) :
    ∃ after, (Command.setRule on job).run r c = .ok () after := by
  obtain ⟨g, hset⟩ : ∃ g, (if on then i.grammar.enable (some job.subject)
      else i.grammar.disable (some job.subject)) = (g, true) := by
    cases on <;> exact ⟨_, Prod.ext rfl hfound⟩
  have hdump : ∀ files : Files, files.checkWritable (.ofString out) = .error (.file e) →
      (g.dump files out).result = .ok none := by
    intro files hfails
    simp [Grammar.dump, write_of_refused hfails]
  -- the value by which dumping tells a failure is dropped
  have hprint : print (sentenceRules g) c' = .ok () { c' with out := _ } := rfl
  obtain ⟨after, hafter⟩ := onFiles_eq_ok (g.dump · out)
    { c' with out := c'.out ++ sentenceRules g ++ "\n" }
  rw [hdump _ hrefused] at hafter
  refine ⟨after, ?_⟩
  show runSetRule r on job c = .ok () after
  unfold runSetRule
  rw [bind_of_ok hbuild, hset, hout]
  simp only [Bool.not_true, if_neg Bool.false_ne_true]
  rw [bind_of_ok hprint, bind_of_ok hafter]
  rfl

/-- Orphans that cannot be written stop the run. -/
theorem orphans_of_refused {out : Option String} {path : String} {e : FileError}
    (hbuild : buildLoaded r c = .ok i c') (hout : out.filter (!·.isEmpty) = some path)
    (hrefused : c'.files.checkWritable (.ofPath (.ofString path)) = .error (.file e)) :
    ∃ after, (Command.orphans out).run r c = .error (.fault (.file e)) after := by
  have hwrite : (i.grammar.writeOrphans c'.files path).result = .error (.file e) := by
    unfold Grammar.writeOrphans
    rw [write_of_refused hrefused]
  -- the operation itself comes to its result; what it results in is the fault
  obtain ⟨after, hafter⟩ := onFiles_eq_ok (i.grammar.writeOrphans · path) c'
  rw [hwrite] at hafter
  refine ⟨after, ?_⟩
  show runOrphans r out c = _
  unfold runOrphans
  rw [bind_of_ok hbuild, hout]
  show (onFiles (i.grammar.writeOrphans · path) >>= _) c' = _
  rw [bind_of_ok hafter]
  rfl

/-- Enabling a head makes it no harder to find. -/
theorem any_setStatus (g : Grammar) (top head : Option String) (status : Status)
    (h : g.productions.any (Grammar.matchesHead head) = true) :
    (g.setStatus top status).1.productions.any (Grammar.matchesHead head) = true := by
  simp only [Grammar.setStatus, Array.any_map]
  obtain ⟨p, hp, hhead⟩ := Array.any_eq_true'.1 h
  refine Array.any_eq_true'.2 ⟨p, hp, ?_⟩
  simp only [Function.comp_apply]
  split
  · exact hhead
  · exact hhead

/-- A head of a grammar file is found whatever is made ready on top. -/
theorem any_ready (head : Option String) (top name : String)
    (h : i.grammar.productions.any (Grammar.matchesHead head) = true) :
    (i.ready top name).grammar.productions.any (Grammar.matchesHead head) = true := by
  apply any_setStatus
  obtain ⟨new, hnew, _⟩ := Grammar.productions_growAll i.grammar (i.additions name)
  rw [← Array.any_toList] at h ⊢
  rw [hnew, List.any_append, h, Bool.true_or]

/-- The grammar is loaded, and its rule is found. The file has no inclusion, so its rules are taken
from its lines directly. -/
theorem any_desk (hgrammar : i.grammar = { dictation := 5, maxAlerts := 10 }) :
    (∃ n, (i.loadGrammar (.still desk.files) "rules.sgm" "" "").result = .ok (some n))
      ∧ (i.loadGrammar (.still desk.files) "rules.sgm" "" "").state.grammar.productions.any
          (Grammar.matchesHead (some "toplevel")) = true := by
  have hpath : Grammar.filePath "rules.sgm" = .ok ⟨"", ["rules.sgm"]⟩ := by decide +kernel
  have hread : desk.files.read (.ofPath ⟨"", ["rules.sgm"]⟩) = .ok (.text "=[toplevel]\n  go\n") := by
    decide +kernel
  have hlines : Content.lines (.text "=[toplevel]\n  go\n") = .ok ["=[toplevel]", "  go"] := by decide
  have hplain : ∀ raw ∈ ["=[toplevel]", "  go"],
      Line.startsWith (Line.clean raw) "#include" = false := by decide
  have hrules : Grammar.rulesOf .none ["=[toplevel]", "  go"] = [("toplevel", "go")] := by decide +kernel
  obtain ⟨hopened, hloaded⟩ := @Grammar.load_of_forall_not_include _ i.grammar
    (if i.linked then some i.irregulars else none) (.still desk.files) _ _ _ hpath hread hlines hplain
  rw [← Interpreter.result_readGrammar] at hopened
  obtain ⟨hstate, hresult⟩ := @Interpreter.loadGrammar_of_readGrammar i "rules.sgm" "" "" _ hopened
  refine ⟨⟨_, hresult⟩, ?_⟩
  rw [hstate]
  apply any_ready
  -- the file has one rule, and that is the only production then
  have hread : (i.readGrammar (.still desk.files) "rules.sgm").state.grammar
      = (i.grammar.onPath ⟨"", ["rules.sgm"]⟩).grow "toplevel" "go" := by
    simp only [Interpreter.readGrammar]
    rw [hloaded, hrules]
    rfl
  -- a plain form expands to itself
  rw [hread, hgrammar]
  have hforms : Grammar.Forms "toplevel" (Text.words "go") [⟨"go", false⟩] :=
    Grammar.forms_iff.2 ⟨by decide, by decide⟩
  rw [← Grammar.grammar_expand _ _ _ "",
    Grammar.productions_expand_plain (Grammar.tidy_of_isEmpty rfl rfl) (by decide) (by decide) hforms
      (by simp [Grammar.onPath])]
  decide +kernel

/-- Outputs that cannot be written: the rules are enabled and disabled as if nothing had happened, and for
orphans, derived forms and the log the fault of the file is not caught. The path of the log is made
absolute before it is opened, so its fault names that one. -/
theorem run_neglects_refused :
    let out := "missing/out.sgm"
    let away := "/missing/out.sgm"
    desk.files.cwd = ["tmp", "work"] ∧ (Access.write (.ofString out)).Refused desk.files
      ∧ (run ["-g", "rules.sgm", "enable", "toplevel", "--out", out] desk).2 = .ok 0
      ∧ (run ["-g", "rules.sgm", "disable", "toplevel", "--out", out] desk).2 = .ok 0
      ∧ (run ["-g", "rules.sgm", "orphans", "--out", out] desk).2
        = .error (.file (.blocked .missing out))
      ∧ (run ["harvest-lex", "lex.sgm", "--out", out] desk).2 = .error (.file (.blocked .missing out))
      ∧ (run ["--log-file", out, "check-morph", "lex.sgm"] desk).2
        = .error (.file (.blocked .missing "/tmp/work/missing/out.sgm"))
      ∧ (run ["--log-file", away, "check-morph", "lex.sgm"] desk).2
        = .error (.file (.blocked .missing away)) := by
  intro out away
  have hrefused : desk.files.checkWritable (.ofString out) = .error (.file (.blocked .missing out)) := by
    decide +kernel
  have hnormal : desk.files.checkWritable (.ofPath (.ofString out))
      = .error (.file (.blocked .missing out)) := by
    decide +kernel
  obtain ⟨start, hlog, hfiles, hnone⟩ := exists_openLog_none .warning false desk
  -- building goes through in both commands, since the grammar they start with can be loaded
  have hload : ∀ i : Interpreter, i.grammar = { dictation := 5, maxAlerts := 10 } →
      ∃ n, (i.loadGrammar (.still start.files) "rules.sgm" "" "").result = .ok (some n) := by
    intro i hi
    rw [hfiles]
    exact (any_desk hi).1
  have hfound : ∀ i : Interpreter, i.grammar = { dictation := 5, maxAlerts := 10 } →
      (i.loadGrammar (.still start.files) "rules.sgm" "" "").state.grammar.productions.any
        (Grammar.matchesHead (some "toplevel")) = true := by
    intro i hi
    rw [hfiles]
    exact (any_desk hi).2
  -- the two commands differ in the status that they set, and it does not matter here
  have hsetRule : ∀ on : Bool,
      (run ["-g", "rules.sgm", if on then "enable" else "disable", "toplevel", "--out", out] desk).2
        = .ok 0 := by
    intro on
    let job : Job := { subject := "toplevel", out := some out }
    let r : Request := { grammars := [some "rules.sgm"], command := some (.setRule on job) }
    have hargs : Request.ofArgs
        ["-g", "rules.sgm", if on then "enable" else "disable", "toplevel", "--out", out] = .ok r := by
      cases on <;> decide +kernel
    obtain ⟨fresh, shown, hfresh, hbuild⟩ := @exists_buildLoaded start r _ _ rfl rfl hnone hload
    obtain ⟨after, hafter⟩ := @setRule_of_refused _ _ r _ on job _ _ hbuild (hfound _ hfresh) rfl
      (by rw [hfiles]; exact hrefused)
    unfold run
    rw [runArgs_eq hargs rfl hlog, hafter]
  have horphans : (run ["-g", "rules.sgm", "orphans", "--out", out] desk).2
      = .error (.file (.blocked .missing out)) := by
    let r : Request := { grammars := [some "rules.sgm"], command := some (.orphans (some out)) }
    have hargs : Request.ofArgs ["-g", "rules.sgm", "orphans", "--out", out] = .ok r := by decide +kernel
    obtain ⟨fresh, shown, _, hbuild⟩ := @exists_buildLoaded start r _ _ rfl rfl hnone hload
    obtain ⟨after, hafter⟩ := @orphans_of_refused _ _ r _ (some out) _ _ hbuild rfl
      (by rw [hfiles]; exact hnormal)
    unfold run
    rw [runArgs_eq hargs rfl hlog, hafter]
  exact ⟨rfl, ⟨_, hrefused⟩, hsetRule true, hsetRule false, horphans, by decide +kernel,
    by decide +kernel, by decide +kernel⟩

end Utterance.CommandLine
