import Utterance.Proofs.Grammar.Built
import Utterance.Proofs.Inflection.Irregular

/-!
# What reading a grammar file does

As long as the files stay as they are, reading a grammar file does the same to every grammar and every
table of irregular forms: it adds the same rules to the one and the same lines to the other, in the same
order. A rule that is there already is not added again. So a grammar that has all that a file stands for
is left alone when the file is read into it.
-/

namespace Utterance.Grammar

variable {g g' g'' : Grammar} {head line : String}

/-! ## Grammars that have more -/

/-- A grammar that has the productions of another, up to case, and reads sugar as it does. -/
structure Within (g g' : Grammar) : Prop where
  dictation : g'.dictation = g.dictation
  keys : ∀ key, g.keys.contains key = true → g'.keys.contains key = true

theorem Within.refl (g : Grammar) : Within g g := ⟨rfl, fun _ h => h⟩

theorem Within.trans (h : Within g g') (h' : Within g' g'') : Within g g'' where
  dictation := h'.dictation.trans h.dictation
  keys key hkey := h'.keys key (h.keys key hkey)

theorem within_setStatus (g : Grammar) (head : Option String) (status : Status) :
    Within g (g.setStatus head status).1 :=
  ⟨rfl, fun _ h => h⟩

/-- Remembering an attention phrase concerns the list of alerts only. -/
theorem keys_remember (g : Grammar) (head : String) (steps : List Step) :
    (g.remember head steps).keys = g.keys := by
  unfold remember
  split <;> rfl

/-- Nor does it change how sugar is read. -/
theorem dictation_remember (g : Grammar) (head : String) (steps : List Step) :
    (g.remember head steps).dictation = g.dictation := by
  unfold remember
  split <;> rfl

/-! ## Plain lines -/

/-- The grammar with one plain line of a head. -/
def growPlain (head : String) (g : Grammar) (line : String) : Grammar :=
  (Growth.addPlain head "" { grammar := g } line).grammar

/-- Where a line stands shows in notes only. -/
theorem grammar_addPlain (head whence : String) (s : Growth) (line : String) :
    (s.addPlain head whence line).grammar = growPlain head s.grammar line := by
  unfold growPlain Growth.addPlain
  split
  · rfl
  · simp only
    split <;> rfl

/-- A plain line takes nothing away. -/
theorem within_growPlain (g : Grammar) (head line : String) : Within g (growPlain head g line) := by
  unfold growPlain Growth.addPlain
  split
  · exact .refl g
  · simp only
    split
    · exact .refl g
    · refine ⟨dictation_remember g head _, fun key hkey => ?_⟩
      simp only [push, keys_remember, Std.HashSet.contains_insert, hkey, Bool.or_true]

/-- A line whose production is there adds nothing: whether it is there is asked before anything is
added. -/
theorem growPlain_of_within (h : Within (growPlain head g line) g') : growPlain head g' line = g' := by
  have hkeys := h.keys
  unfold growPlain Growth.addPlain at hkeys ⊢
  cases hread : readSteps head line with
  | error d => rfl
  | ok steps =>
    simp only [hread] at hkeys ⊢
    rw [if_pos]
    by_cases hskip : (steps.isEmpty || g.hasRule head steps) = true
    · rw [if_pos hskip] at hkeys
      rw [Bool.or_eq_true] at hskip ⊢
      exact hskip.imp_right (hkeys _)
    -- the first time it was added
    · rw [if_neg hskip] at hkeys
      rw [Bool.or_eq_true]
      refine .inr (hkeys _ ?_)
      simp only [push, keys_remember, Std.HashSet.contains_insert, Production.key, beq_self_eq_true,
        Bool.true_or]

/-- Several plain lines take nothing away. -/
theorem within_foldl_growPlain (head : String) (lines : List String) (g : Grammar) :
    Within g (lines.foldl (growPlain head) g) := by
  induction lines generalizing g with
  | nil => exact .refl g
  | cons line lines ih => exact (within_growPlain g head line).trans (ih _)

/-- Plain lines whose productions are all there add nothing. Each may be looked at in the grammar
that the ones before it made, and that one has no more than the whole. -/
theorem foldl_growPlain_of_within {lines : List String} (h : Within (lines.foldl (growPlain head) g) g') :
    lines.foldl (growPlain head) g' = g' := by
  induction lines generalizing g with
  | nil => rfl
  | cons line lines ih =>
    rw [List.foldl_cons, growPlain_of_within ((within_foldl_growPlain head lines _).trans h)]
    exact ih h

/-! ## Sugared lines -/

/-- The grammar with one line of a head. -/
def grow (g : Grammar) (head line : String) : Grammar :=
  if !Sugar.isNested line.toList then g
  else ((Sugar.variants g.dictation.toNat line.toList).map String.ofList).foldl (growPlain head) g

/-- Expanding a line is adding its plain variants, apart from what is noted. -/
theorem grammar_expand (g : Grammar) (head line whence : String) :
    (g.expand head line whence).grammar = g.grow head line := by
  unfold expand grow
  simp only
  split
  · rfl
  · exact (List.foldl_hom Growth.grammar fun s plain => (grammar_addPlain head _ s plain).symm).symm

/-- A line takes nothing away. -/
theorem within_grow (g : Grammar) (head line : String) : Within g (g.grow head line) := by
  unfold grow
  split
  · exact .refl g
  · exact within_foldl_growPlain head _ g

/-- A line whose productions are all there adds nothing. -/
theorem grow_of_within (h : Within (g.grow head line) g') : g'.grow head line = g' := by
  have hdictation : g'.dictation = g.dictation :=
    ((within_grow g head line).trans h).dictation
  unfold grow at h ⊢
  rw [hdictation]
  split
  · rfl
  · rename_i hnested
    rw [if_neg hnested] at h
    exact foldl_growPlain_of_within h

/-- A line does not rename the grammar's file. -/
theorem path_grow (g : Grammar) (head line : String) : (g.grow head line).path = g.path := by
  rw [← grammar_expand g head line ""]
  apply expand_preserves (P := fun g' => g'.path = g.path) ?_ rfl
  intro _ g' steps hpath _ _ _
  rw [← hpath]
  unfold remember
  split <;> rfl

/-- The grammar with some rules, each a head and a line. -/
def growAll (g : Grammar) (rules : List (String × String)) : Grammar :=
  rules.foldl (fun g rule => g.grow rule.1 rule.2) g

/-- Rules take nothing away. -/
theorem within_growAll (g : Grammar) (rules : List (String × String)) : Within g (g.growAll rules) := by
  induction rules generalizing g with
  | nil => exact .refl g
  | cons rule rules ih => exact (within_grow g rule.1 rule.2).trans (ih _)

/-- Rules that are all there add nothing. -/
theorem growAll_of_within {rules : List (String × String)} (h : Within (g.growAll rules) g') :
    g'.growAll rules = g' := by
  induction rules generalizing g with
  | nil => rfl
  | cons rule rules ih =>
    show (g'.grow rule.1 rule.2).growAll rules = g'
    rw [grow_of_within ((within_growAll _ rules).trans h)]
    exact ih h

/-- Nor do rules. -/
theorem path_growAll (g : Grammar) (rules : List (String × String)) :
    (g.growAll rules).path = g.path := by
  induction rules generalizing g with
  | nil => rfl
  | cons rule rules ih => exact (ih _).trans (path_grow g rule.1 rule.2)

/-! ## Scripts -/

/-- What reading does: the rules that it adds, and the lines of irregular forms. -/
structure Script where
  rules : List (String × String) := []
  irregulars : List String := []

namespace Script

variable {script script' : Script} {s s' s'' : Loading}

/-- The script of one reading after the other. -/
def append (script script' : Script) : Script :=
  ⟨script.rules ++ script'.rules, script.irregulars ++ script'.irregulars⟩

/-- Whether a script leads from one state of loading to another, apart from the journal. -/
structure Leads (script : Script) (s s' : Loading) : Prop where
  grammar : s'.grammar = s.grammar.growAll script.rules
  irregulars : s'.irregulars = s.irregulars.map (·.addLines script.irregulars)

/-- The empty script does nothing. -/
theorem leads_nil (h : s'.grammar = s.grammar) (h' : s'.irregulars = s.irregulars) :
    Leads {} s s' := by
  refine ⟨h, ?_⟩
  rw [h']
  cases s.irregulars <;> rfl

/-- One script after the other leads over the state in between. -/
theorem Leads.append (h : script.Leads s s') (h' : script'.Leads s' s'') :
    (script.append script').Leads s s'' where
  grammar := by
    rw [h'.grammar, h.grammar, Script.append, growAll, growAll, growAll, List.foldl_append]
  irregulars := by
    rw [h'.irregulars, h.irregulars, Option.map_map]
    congr 1
    funext table
    simp [Script.append, Irregulars.addLines]

/-- Adding a rule is a script of that rule. -/
theorem leads_addRule (s : Loading) (head line whence : String) :
    Leads ⟨[(head, line)], []⟩ s (s.addRule head line whence) := by
  refine ⟨grammar_expand _ _ _ _, ?_⟩
  show s.irregulars = _
  cases s.irregulars <;> rfl

/-- Adding a line of an irregular form is a script of that line. -/
theorem leads_addIrregular (s : Loading) (line whence : String) :
    Leads ⟨[], [line]⟩ s (s.addIrregular line whence) := by
  unfold Loading.addIrregular
  cases htable : s.irregulars with
  | none => exact ⟨rfl, by simp [htable]⟩
  | some table => exact ⟨rfl, by simp [htable, Irregulars.addLines, Irregulars.addLine_fst table line whence]⟩

end Script

/-- Whether a reader does the same to every state and always with the same result. -/
def Scripted (read : Loading → Loading × Except Fault Bool) : Prop :=
  ∃ (script : Script) (result : Except Fault Bool),
    ∀ s, script.Leads s (read s).1 ∧ (read s).2 = result

variable {read read' : Loading → Loading × Except Fault Bool}

theorem Scripted.congr (h : Scripted read) (heq : ∀ s, read' s = read s) : Scripted read' := by
  rwa [funext heq]

/-- A reader that starts with something that is the same for every state. -/
theorem Scripted.after (h : Scripted read) {script : Script} {change : Loading → Loading}
    (hchange : ∀ s, script.Leads s (change s)) : Scripted fun s => read (change s) := by
  obtain ⟨script', result, hread⟩ := h
  exact ⟨script.append script', result, fun s => ⟨(hchange s).append (hread _).1, (hread _).2⟩⟩

theorem Scripted.note (h : Scripted read) (topic : Topic) (message : String) :
    Scripted fun s => read (s.note topic message) :=
  h.after fun _ => Script.leads_nil rfl rfl

theorem scripted_const (result : Except Fault Bool) : Scripted fun s => (s, result) :=
  ⟨{}, result, fun _ => ⟨Script.leads_nil rfl rfl, rfl⟩⟩

/-- What follows a nested file depends on nothing but whether the nested file could be opened. So
the script of the whole can be told beforehand. -/
theorem Scripted.bind (h : Scripted read) {opened failed : Loading → Loading × Except Fault Bool}
    (hopened : Scripted opened) (hfailed : Scripted failed) :
    Scripted fun s =>
      match read s with
      | (s, .error e) => (s, .error e)
      | (s, .ok true) => opened s
      | (s, .ok false) => failed s := by
  obtain ⟨script, result, hread⟩ := h
  have hnested : ∀ s, read s = ((read s).1, result) := fun s => Prod.ext rfl (hread s).2
  match result, hnested with
  | .error e, hnested =>
    refine ((scripted_const (.error e)).after fun s => (hread s).1).congr fun s => ?_
    rw [hnested s]
  | .ok true, hnested =>
    refine (hopened.after fun s => (hread s).1).congr fun s => ?_
    rw [hnested s]
  | .ok false, hnested =>
    refine (hfailed.after fun s => (hread s).1).congr fun s => ?_
    rw [hnested s]

/-! ## Lines -/

/-- The rule that a line of a section adds. -/
def ruleOf? (sec : Section) (line : String) : Option (String × String) :=
  match sec with
  | .rules head =>
    if Line.startsWith line "#include" || Line.startsWith line "=" || line.isEmpty then none
    else some (head, line)
  | _ => none

/-- The line of an irregular form that a line of a section adds. -/
def irregularOf? (sec : Section) (line : String) : Option String :=
  match sec with
  | .irregular =>
    if Line.startsWith line "#include" || Line.startsWith line "=" || line.isEmpty then none
    else some line
  | _ => none

/-- Checking a head writes notes only. -/
theorem Script.leads_checkHead (s : Loading) (name whence : String) :
    Script.Leads {} s (s.checkHead name whence) := by
  refine Script.leads_nil (Loading.grammar_checkHead s name whence) ?_
  unfold Loading.checkHead
  simp only
  split
  · rfl
  · split <;> rfl

/-- A line does the same in every state: it adds a rule, a line of an irregular form, or nothing,
according to its section and its first characters. -/
theorem Script.leads_takeLine (s : Loading) (path : Path) (sec : Section) (number : Nat) (line : String) :
    Script.Leads ⟨(ruleOf? sec line).toList, (irregularOf? sec line).toList⟩ s
      (s.takeLine path sec number line) := by
  -- includes, heads and empty lines add nothing in any section, though they may leave a note
  have hnothing : ∀ s', Script.Leads {} s s' →
      (Line.startsWith line "#include" || Line.startsWith line "=" || line.isEmpty) = true →
      Script.Leads ⟨(ruleOf? sec line).toList, (irregularOf? sec line).toList⟩ s s' := by
    intro s' hleads hskipped
    have hrule : ruleOf? sec line = none := by cases sec <;> simp only [ruleOf?, hskipped, if_true]
    have hirregular : irregularOf? sec line = none := by
      cases sec <;> simp only [irregularOf?, hskipped, if_true]
    rw [hrule, hirregular]
    exact hleads
  -- the conditions are asked in the order of the function
  unfold Loading.takeLine
  simp only
  split
  · rename_i hinclude
    exact hnothing _ (Script.leads_nil rfl rfl) (by simp only [hinclude, Bool.true_or])
  · rename_i hinclude
    split
    · rename_i hrule
      apply hnothing
      · split
        · exact Script.leads_nil rfl rfl
        · split
          · exact Script.leads_nil rfl rfl
          · exact Script.leads_checkHead s _ _
      · simp only [hrule, Bool.or_true, Bool.true_or]
    · rename_i hrule
      split
      · rename_i hempty
        exact hnothing _ (Script.leads_nil rfl rfl) (by simp only [hempty, Bool.or_true])
      · rename_i hempty
        cases sec with
        | none => exact Script.leads_nil rfl rfl
        | rules head =>
          have hsome : ruleOf? (.rules head) line = some (head, line) := by
            simp [ruleOf?, hinclude, hrule, hempty]
          rw [hsome]
          exact Script.leads_addRule s head line _
        | irregular =>
          have hsome : irregularOf? .irregular line = some line := by
            simp [irregularOf?, hinclude, hrule, hempty]
          rw [hsome]
          exact Script.leads_addIrregular s line _

/-- Reading lines does the same to every state, if reading the files that they name does. -/
theorem scripted_loadLines {nested : Path → Loading → Loading × Except Fault Bool} {path : Path}
    (hnested : ∀ p, Scripted (nested p)) (lines : List String) (sec : Section) (number : Nat) :
    Scripted (loadLines nested path sec number lines) := by
  -- by induction on the lines, the section being what the lines so far have set
  induction lines generalizing sec number with
  | nil => exact scripted_const (.ok true)
  | cons raw rest ih =>
    cases hincluded : included? path (Line.clean raw) with
    | none =>
      have hrest := ih (sec.after (Line.clean raw)) (number + 1)
      exact Scripted.congr
        (hrest.after fun s => Script.leads_takeLine s path sec number (Line.clean raw))
        (loadLines_cons_of_none hincluded number rest)
    | some extra =>
      have hrest := ih .none (number + 1)
      exact ((hnested extra).bind hrest (hrest.note _ _)).congr
        (loadLines_cons_of_some hincluded number rest)

/-! ## Files -/

/-- A file that is not being read is read as it is stored then: as files may change while others are
read, it is looked up after what has been written so far. -/
theorem loadFile_of_not_contains {view : Files.View} {stack : List (List String)} {path : Path}
    (hcycle : ¬ stack.contains ((Route.ofPath path).resolve view.cwd) = true) (s : Loading) :
    loadFile view stack path s
      = match (view.after s.notes).read (.ofPath path) with
        | .error (.file e) =>
          (s.note .unopenedGrammar ("Could not open grammar " ++ path.text ++ ": " ++ e.message),
            .ok false)
        | .error e => (s, .error e)
        | .ok content =>
          match content.lines with
          | .error e => (s, .error e)
          | .ok lines =>
            loadLines (loadFile view ((Route.ofPath path).resolve view.cwd :: stack)) path .none 1 lines
              (s.note .loading
                ("Loading grammar " ++ path.text ++ " (" ++ toString lines.length ++ " lines)")) := by
  rw [loadFile, dif_neg hcycle]
  split
  · rename_i hread
    rw [hread]
  · rename_i hother hread
    rw [hread]
    split
    · rename_i hfile
      cases hfile
      exact absurd rfl (hother _)
    · rename_i hfile
      cases hfile
      rfl
    · rename_i hfile
      cases hfile
  · rename_i content hread
    exact hread ▸ rfl

/-- If the files stay as they are, so does what is read. -/
theorem loadFile_still {files : Files} {stack : List (List String)} {path : Path}
    (hcycle : ¬ stack.contains ((Route.ofPath path).resolve files.cwd) = true) (s : Loading) :
    loadFile (.still files) stack path s
      = match files.read (.ofPath path) with
        | .error (.file e) =>
          (s.note .unopenedGrammar ("Could not open grammar " ++ path.text ++ ": " ++ e.message),
            .ok false)
        | .error e => (s, .error e)
        | .ok content =>
          match content.lines with
          | .error e => (s, .error e)
          | .ok lines =>
            loadLines (loadFile (.still files) ((Route.ofPath path).resolve files.cwd :: stack)) path
              .none 1 lines
              (s.note .loading
                ("Loading grammar " ++ path.text ++ " (" ++ toString lines.length ++ " lines)")) :=
  loadFile_of_not_contains hcycle s

/-- Reading a file does the same to every state as long as the files stay as they are. -/
theorem scripted_loadFile (files : Files) (stack : List (List String)) (path : Path) :
    Scripted (loadFile (.still files) stack path) := by
  -- a nested file leaves fewer stored files that are not being read
  induction hn : unopened files.places stack using Nat.strongRecOn generalizing stack path with
  | _ n ih =>
    by_cases hcycle : stack.contains ((Route.ofPath path).resolve (Files.View.still files).cwd) = true
    · refine Scripted.congr ((scripted_const (.ok false)).note .includeCycle
        ("Include cycle through " ++ path.text ++ " ignored")) fun s => ?_
      rw [loadFile, dif_pos hcycle]
    · have hread := @loadFile_still files stack path hcycle
      split at hread
      · exact ((scripted_const (.ok false)).note _ _).congr hread
      · exact (scripted_const (.error _)).congr hread
      · rename_i content hcontent
        split at hread
        · exact (scripted_const (.error _)).congr hread
        · refine ((scripted_loadLines (fun p => ih _ ?_ _ p rfl) _ .none 1).note _ _).congr hread
          rw [← hn]
          exact unopened_cons_lt (@Files.View.resolve_mem_places (.still files) [] _ _ hcontent)
            (by simpa using hcycle)

/-- Lines that include no file are read to the end. -/
theorem loadLines_of_forall_not_include {nested : Path → Loading → Loading × Except Fault Bool}
    {path : Path} {lines : List String}
    (hplain : ∀ raw ∈ lines, Line.startsWith (Line.clean raw) "#include" = false) (sec : Section)
    (number : Nat) (s : Loading) : (loadLines nested path sec number lines s).2 = .ok true := by
  induction lines generalizing sec number s with
  | nil => rfl
  | cons raw lines ih =>
    have ih := ih fun other hother => hplain other (List.mem_cons_of_mem _ hother)
    rw [loadLines_cons_of_none (included?_eq_none path (hplain raw (List.mem_cons_self ..)))]
    exact ih ..

/-! ## Loading -/

/-- The grammar with the name of its first file. -/
def onPath (g : Grammar) (path : Path) : Grammar := { g with path := some (g.path.getD path) }

theorem onPath_of_path_eq_some {path first : Path} (h : g.path = some first) : g.onPath path = g := by
  rw [onPath, h, Option.getD_some, ← h]

/-- Loading names the first file, and then does the same to every grammar and table. It is here that
loading twice is reduced to adding the same rules twice. -/
theorem exists_script_load {files : Files} {path : String} {p : Path} (hpath : filePath path = .ok p) :
    ∃ (script : Script) (result : Except Fault Bool), ∀ (g : Grammar) (irregulars : Option Irregulars),
      (g.load irregulars files path).result = result
        ∧ (g.load irregulars files path).state.1 = (g.onPath p).growAll script.rules
        ∧ (g.load irregulars files path).state.2 = irregulars.map (·.addLines script.irregulars) := by
  obtain ⟨script, result, hread⟩ := scripted_loadFile files [] p
  refine ⟨script, result, fun g irregulars => ?_⟩
  obtain ⟨⟨hgrammar, hirregulars⟩, hresult⟩ := hread { grammar := g.onPath p, irregulars }
  unfold load
  rw [hpath]
  exact ⟨hresult, hgrammar, hirregulars⟩

/-- There is a table after loading if there was one before. Loading enters forms into a table and
never makes one. -/
theorem isSome_load (g : Grammar) (irregulars : Option Irregulars) (files : Files) (path : String) :
    (g.load irregulars (.still files) path).state.2.isSome = irregulars.isSome := by
  cases hpath : filePath path with
  | error e =>
    unfold load
    rw [hpath]
  | ok p =>
    obtain ⟨_, _, hload⟩ := @exists_script_load files path p hpath
    have htable := (hload g irregulars).2.2
    rw [show Grammar.load g irregulars (.still files) path = g.load irregulars files path from rfl,
      htable, Option.isSome_map]

/-- A file that was loaded can be loaded into whatever became of the grammar, as long as no rule was
taken away: it adds nothing, neither rules nor irregular forms. -/
theorem load_of_within {irregulars : Option Irregulars} {files : Files} {path : String} {opened : Bool}
    (hresult : (g.load irregulars files path).result = .ok opened)
    (hwithin : Within (g.load irregulars files path).state.1 g')
    (hfirst : g'.path = (g.load irregulars files path).state.1.path) :
    (g'.load (g.load irregulars files path).state.2 files path).result = .ok opened
      ∧ (g'.load (g.load irregulars files path).state.2 files path).state
        = (g', (g.load irregulars files path).state.2) := by
  cases hpath : filePath path with
  | error e =>
    unfold load at hresult
    rw [hpath] at hresult
    cases hresult
  | ok p =>
    -- loading is the same script of additions, whatever grammar it is applied to
    obtain ⟨script, result, hload⟩ := @exists_script_load files path p hpath
    obtain ⟨hresult', hgrammar, hirregulars⟩ := hload g irregulars
    rw [hgrammar] at hwithin hfirst
    rw [path_growAll] at hfirst
    rw [hirregulars]
    obtain ⟨hagain, hgrammar', hirregulars'⟩ :=
      hload g' (irregulars.map (·.addLines script.irregulars))
    refine ⟨hagain.trans (hresult'.symm.trans hresult), Prod.ext ?_ ?_⟩
    · rw [hgrammar', onPath_of_path_eq_some hfirst, growAll_of_within hwithin]
    · rw [hirregulars']
      cases irregulars with
      | none => rfl
      | some table => exact congrArg some (table.addLines_addLines script.irregulars)

end Utterance.Grammar
