import Utterance.Proofs.Grammar.Written
import Utterance.Proofs.Storage

/-!
# Rules that are written and loaded again

A grammar file shows the productions of a head one in a line, below the line that opens the section of
the head. Each line makes the production that it shows, up to case, and nothing else: so a grammar that
loads the file has the same rules as the one that wrote it.
-/

namespace Utterance.Grammar

variable {g : Grammar} {p : Production} {head : String} {steps : List Step} {s : Loading}
  {shown : List Production} {nested : Path → Loading → Loading × Except Fault Bool} {path : Path}
  {number : Nat} {rest : List String}

/-! ## Lines of a section -/

/-- A line without sugar adds the key of what it makes, unless that is there. Nothing else is added,
since such a line stands for itself only. -/
theorem keys_expand_plain (h : g.Tidy) {line : String} (hplain : Sugar.Plain line.toList)
    (hforms : Forms head (Text.words line) steps) (whence : String) (key : RuleKey) :
    key ∈ (g.expand head line whence).grammar.productions.toList.map Production.key
      ↔ key ∈ g.productions.toList.map Production.key ∨ key = keyOf head steps := by
  obtain ⟨added, hadds⟩ := exists_adds_expand h head hplain.isNested whence
  rw [Sugar.variants_eq_singleton hplain.sugarless, List.map_singleton, String.ofList_toList] at hadds
  have hthere : keyOf head steps
      ∈ (g.expand head line whence).grammar.productions.toList.map Production.key :=
    List.mem_map.2 (hadds.complete line (List.mem_singleton.2 rfl) steps hforms)
  constructor
  · intro hkey
    rw [hadds.productions, List.map_append] at hkey
    refine (List.mem_append.1 hkey).imp_right fun hnew => ?_
    -- what is new was made of the line
    obtain ⟨p, hp, rfl⟩ := List.mem_map.1 hnew
    obtain ⟨hhead, _, line', hline', hforms'⟩ := hadds.formed p hp
    rw [List.mem_singleton.1 hline'] at hforms'
    rw [← hforms'.steps_eq hforms, ← hhead]
    rfl
  · rintro (hkey | rfl)
    · rw [hadds.productions, List.map_append]
      exact List.mem_append_left _ hkey
    · exact hthere

/-- What loading has after it has read the lines of some productions. -/
structure Holds (s : Loading) (shown : List Production) : Prop where
  tidy : s.grammar.Tidy
  keys : ∀ key, key ∈ s.grammar.productions.toList.map Production.key
    ↔ key ∈ shown.map Production.key

/-- A warning about a head changes nothing of what loading has. -/
theorem Holds.checkHead (h : Holds s shown) (name whence : String) :
    Holds (s.checkHead name whence) shown := by
  obtain ⟨htidy, hkeys⟩ := h
  rw [← Loading.grammar_checkHead s name whence] at htidy hkeys
  exact ⟨htidy, hkeys⟩

/-- The line of a production adds the production. If one with the same key is there already nothing
is added, and then the key is held as well. -/
theorem Holds.addRule (h : Holds s shown) (hread : Read p.head p.steps)
    (hhead : Text.lower p.head = Text.lower head) (whence : String) :
    Holds (s.addRule head p.expansion whence) (shown ++ [p]) := by
  refine ⟨h.tidy.expand head p.expansion whence, fun key => ?_⟩
  have hadded : keyOf head p.steps = p.key := by
    rw [keyOf, ← hhead]
    rfl
  have hexpand := keys_expand_plain h.tidy (Production.plain_expansion hread)
    (Production.forms_expansion hread hhead) whence key
  rw [hadded, h.keys] at hexpand
  rw [List.map_append, List.mem_append, List.map_singleton, List.mem_singleton]
  exact hexpand

/-- The line that opens a section opens it. -/
theorem loadLines_opening (h : Line.Opens head) (sec : Section) :
    loadLines nested path sec number (Line.opening head :: rest) s
      = loadLines nested path (.rules head) (number + 1) rest
        (s.checkHead head (path.text ++ ":" ++ toString number)) := by
  obtain ⟨hplain, hrule⟩ := Line.Opens.startsWith_opening head
  rw [loadLines.eq_def]
  simp only [h.clean_opening, hplain, hrule, h.header?_opening, h.regular, Bool.false_eq_true,
    if_false, if_true]

/-- The line of a production is read as an expansion of the head of its section. -/
theorem loadLines_line (h : p.Fits) (hread : Read p.head p.steps) :
    loadLines nested path (.rules head) number (p.line :: rest) s
      = loadLines nested path (.rules head) (number + 1) rest
        (s.addRule head p.expansion (path.text ++ ":" ++ toString number)) := by
  have hne : p.expansion.isEmpty = false := by
    simpa using (Production.trimmed_expansion hread).1
  rw [loadLines]
  simp only [h.clean_line hread, h.plain, h.rule, hne, Bool.false_eq_true, if_false]

/-- An empty line is passed over. -/
theorem loadLines_blank (sec : Section) :
    loadLines nested path sec number ("" :: rest) s = loadLines nested path sec (number + 1) rest s := by
  have hclean : Line.clean "" = "" := by decide
  have hplain : Line.startsWith "" "#include" = false := by decide
  have hrule : Line.startsWith "" "=" = false := by decide
  rw [loadLines.eq_def]
  simp only [hclean, hplain, hrule, Bool.false_eq_true, if_false]
  rfl

/-- What can be written about a production that stands below `head`. -/
structure Shows (head : String) (p : Production) : Prop where
  read : Read p.head p.steps
  fits : p.Fits
  below : Text.lower p.head = Text.lower head

variable (nested path) in
/-- The lines of productions add the productions. Each is read below the header of its section, and
the reading goes on behind the last. -/
theorem exists_loadLines_rules {rules : List Production} (h : Holds s shown)
    (hrules : ∀ p ∈ rules, Shows head p) (number : Nat) (rest : List String) :
    ∃ number' s', Holds s' (shown ++ rules)
      ∧ loadLines nested path (.rules head) number (rules.map Production.line ++ rest) s
        = loadLines nested path (.rules head) number' rest s' := by
  induction rules generalizing s shown number with
  | nil => exact ⟨number, s, by rwa [List.append_nil], rfl⟩
  | cons p rules ih =>
    have hp := hrules p (List.mem_cons_self ..)
    have hadded := h.addRule hp.read hp.below (path.text ++ ":" ++ toString number)
    obtain ⟨number', s', hs', hlines⟩ :=
      ih hadded (fun q hq => hrules q (List.mem_cons_of_mem _ hq)) (number + 1)
    rw [List.append_assoc, List.singleton_append] at hs'
    refine ⟨number', s', hs', ?_⟩
    rw [List.map_cons, List.cons_append, loadLines_line hp.fits hp.read, hlines]

/-! ## Sections -/

/-- The lines of the section of a head. -/
def groupLines (group : String × List Production) : List String :=
  Line.opening group.1 :: (group.2.map Production.line ++ [""])

/-- The lines of sections add the productions in them. -/
theorem exists_loadLines_groups {groups : List (String × List Production)} (h : Holds s shown)
    (hgroups : ∀ group ∈ groups, Line.Opens group.1 ∧ ∀ p ∈ group.2, Shows group.1 p)
    (sec : Section) (number : Nat) :
    ∃ s', Holds s' (shown ++ groups.flatMap (·.2))
      ∧ loadLines nested path sec number (groups.flatMap groupLines) s = (s', .ok true) := by
  induction groups generalizing s shown sec number with
  | nil => exact ⟨s, by simpa using h, rfl⟩
  | cons group groups ih =>
    obtain ⟨hopens, hrules⟩ := hgroups group (List.mem_cons_self ..)
    have hchecked := h.checkHead group.1 (path.text ++ ":" ++ toString number)
    obtain ⟨number', s', hs', hlines⟩ := exists_loadLines_rules nested path hchecked hrules
      (number + 1) ("" :: groups.flatMap groupLines)
    obtain ⟨s'', hs'', hrest⟩ :=
      ih hs' (fun other hother => hgroups other (List.mem_cons_of_mem _ hother)) (.rules group.1)
        (number' + 1)
    refine ⟨s'', by rwa [List.flatMap_cons, ← List.append_assoc], ?_⟩
    -- the blank line leaves the section open, and the line of the next head ends it
    rw [List.flatMap_cons, groupLines, List.cons_append, List.append_assoc, List.singleton_append,
      loadLines_opening hopens, hlines, loadLines_blank, hrest]

/-- The text of a file with sections. -/
def groupsText (groups : List (String × List Production)) : String :=
  String.join (groups.map fun (h, rules) => groupText h rules)

/-- The text of sections is that of their lines one after the other. -/
theorem groupsText_eq (groups : List (String × List Production)) :
    groupsText groups = String.join ((groups.flatMap groupLines).map (· ++ "\n")) := by
  rw [groupsText, ← String.toList_inj, String.toList_join, String.toList_join, List.flatMap_map,
    List.flatMap_map, List.flatMap_assoc]
  congr 1
  funext group
  simp [groupText, groupLines, Line.opening, Production.line, List.flatMap_map]

/-- The text of sections is cut into their lines. -/
theorem lines_groups {groups : List (String × List Production)}
    (hgroups : ∀ group ∈ groups, Line.Opens group.1 ∧ ∀ p ∈ group.2, Shows group.1 p) :
    Text.lines (groupsText groups) = groups.flatMap groupLines := by
  rw [groupsText_eq]
  refine Text.lines_join fun line hline => ?_
  obtain ⟨group, hgroup, hline⟩ := List.mem_flatMap.1 hline
  obtain ⟨hopens, hrules⟩ := hgroups group hgroup
  rcases List.mem_cons.1 hline with rfl | hline
  · exact ⟨hopens.seamless_opening.lineFeed, hopens.seamless_opening.carriageReturn⟩
  · rcases List.mem_append.1 hline with hline | hline
    · obtain ⟨p, hp, rfl⟩ := List.mem_map.1 hline
      obtain ⟨hread, hfits, _⟩ := hrules p hp
      have hseamless := hfits.seamless_expansion hread.ne_nil
      rw [Production.line, String.toList_append]
      simp [hseamless.lineFeed, hseamless.carriageReturn]
    -- behind a section there is an empty line
    · rw [List.mem_singleton.1 hline]
      decide

/-- A section has productions, all of them usable and of its head up to case. -/
theorem Coherent.of_mem_groups (h : g.Coherent) {group : String × List Production}
    (hgroup : group ∈ g.groups) :
    group.2 ≠ [] ∧ ∀ p ∈ group.2, p ∈ g.usable ∧ Text.lower p.head = Text.lower group.1 := by
  obtain ⟨hgroup, hne⟩ := List.mem_filter.1 hgroup
  obtain ⟨head, _, rfl⟩ := List.mem_map.1 hgroup
  refine ⟨by simpa using hne, fun p hp => ?_⟩
  obtain ⟨hp, husable⟩ := List.mem_filter.1 hp
  obtain ⟨hstored, hhead⟩ := h.mem_rulesFor.1 hp
  have hmem : p ∈ g.productions.toList := by
    rw [Array.mem_toList_iff]
    exact Array.mem_of_getElem? hstored
  exact ⟨List.mem_filter.2 ⟨hmem, husable⟩, hhead⟩

/-- The productions of all sections are those that are usable. One that has several sections is
counted once here, since only membership is asked for. -/
theorem Coherent.mem_flatMap_groups_iff (h : g.Coherent) :
    p ∈ g.groups.flatMap (·.2) ↔ p ∈ g.usable := by
  constructor
  · intro hp
    obtain ⟨group, hgroup, hp⟩ := List.mem_flatMap.1 hp
    exact ((h.of_mem_groups hgroup).2 p hp).1
  · intro hp
    obtain ⟨hmem, husable⟩ := List.mem_filter.1 hp
    obtain ⟨i, hi⟩ := List.getElem?_of_mem hmem
    rw [Array.getElem?_toList] at hi
    have hid := h.id_eq hi
    subst hid
    -- it is written in the section that its own spelling of the head opens
    have hrule : p ∈ (g.rulesFor p.head).filter fun p => p.status.isUsable :=
      List.mem_filter.2 ⟨h.mem_rulesFor.2 ⟨hi, rfl⟩, husable⟩
    have hhead : p.head ∈ g.heads := mem_distinct.2 (List.mem_map_of_mem hmem)
    refine List.mem_flatMap.2 ⟨(p.head, _), List.mem_filter.2 ⟨List.mem_map_of_mem hhead, ?_⟩, hrule⟩
    simpa using List.ne_nil_of_mem hrule

/-! ## Writing and loading -/

theorem extension_of_parts_eq_nil {path : Path} (h : path.parts = []) : path.extension = "" := by
  rw [Path.extension, Path.name, h]
  rfl

/-- The sections of a grammar can be read as they were written. -/
theorem Coherent.shows_of_mem_groups (h : g.Coherent)
    (hread : ∀ p ∈ g.usable, Read p.head p.steps) (hfits : ∀ p ∈ g.usable, p.Fits) :
    ∀ group ∈ g.groups, Line.Opens group.1 ∧ ∀ p ∈ group.2, Shows group.1 p := by
  intro group hgroup
  obtain ⟨hne, hrules⟩ := h.of_mem_groups hgroup
  -- the head of the section may be spelled as in another production, even in a disabled one
  obtain ⟨p, rest, hcons⟩ := List.exists_cons_of_ne_nil hne
  obtain ⟨hp, hhead⟩ := hrules p (by rw [hcons]; exact List.mem_cons_self ..)
  refine ⟨(hfits p hp).opens.of_lower_eq hhead, fun q hq => ?_⟩
  obtain ⟨hq, hhead⟩ := hrules q hq
  exact ⟨hread q hq, hfits q hq, hhead⟩

/-- Reading a file with the text of sections adds the productions in them. -/
theorem exists_loadFile_groupsText {view : Files.View} {groups : List (String × List Production)}
    (h : Holds s shown)
    (hgroups : ∀ group ∈ groups, Line.Opens group.1 ∧ ∀ p ∈ group.2, Shows group.1 p)
    (hread : (view.after s.notes).read (.ofPath path) = .ok (.text (groupsText groups))) :
    ∃ s', Holds s' (shown ++ groups.flatMap (·.2)) ∧ loadFile view [] path s = (s', .ok true) := by
  have hlines : (Content.text (groupsText groups)).lines = .ok (groups.flatMap groupLines) :=
    congrArg Except.ok (lines_groups hgroups)
  rw [loadFile_of_read hread hlines]
  refine exists_loadLines_groups ?_ hgroups .none 1
  exact ⟨h.tidy, h.keys⟩

/-- A grammar without rules that loads the text of sections gets the productions in them. They are
named by their keys, since a production that stands in two sections is added once. -/
theorem load_groupsText {view : Files.View} {file : String} {groups : List (String × List Production)}
    (hextension : (Path.ofString file).extension ≠ "")
    (hgroups : ∀ group ∈ groups, Line.Opens group.1 ∧ ∀ p ∈ group.2, Shows group.1 p)
    (hread : (view.after []).read (.ofPath (Path.ofString file)) = .ok (.text (groupsText groups)))
    (dictation maxAlerts : Int) (irregulars : Option Irregulars) :
    let loaded := load { dictation, maxAlerts } irregulars view file
    loaded.result = .ok true
      ∧ ∀ key, key ∈ loaded.state.1.productions.toList.map Production.key
        ↔ key ∈ (groups.flatMap (·.2)).map Production.key := by
  have hpath : filePath file = .ok (Path.ofString file) := by
    rw [filePath, if_neg (by simpa using hextension)]
  have hempty : ∀ path, Holds { grammar := { dictation, maxAlerts, path }, irregulars } [] :=
    fun _ => ⟨tidy_of_isEmpty rfl rfl, by simp⟩
  obtain ⟨s, hs, hloaded⟩ :=
    exists_loadFile_groupsText (hempty (some (Path.ofString file))) hgroups hread
  unfold load
  rw [hpath]
  simp only [Option.getD_none, hloaded, true_and]
  exact hs.keys

/-- A dump to a file that can be written leaves the file written and gives a number. -/
theorem dump_of_write {files files' : Files} {file : String}
    (h : files.write (.ofString file) (groupsText g.groups) = .ok files') :
    (g.dump files file).state = files' ∧ ∃ count, (g.dump files file).result = .ok (some count) := by
  rw [groupsText] at h
  unfold dump
  simp only [h]
  exact ⟨trivial, _, rfl⟩

/-- If the usable rules of a grammar fit into a grammar file and the file can be written, then a grammar
without rules that loads it has just these rules, up to case. -/
theorem reload_dump (hg : g.Built) (status : Nat → Status)
    (hfits : ∀ p ∈ (g.withStatuses status).usable, p.Fits) {files : Files} {file : String}
    (hextension : (Path.ofString file).extension ≠ "")
    (hwritable : files.checkWritable (.ofString file) = .ok ()) (dictation maxAlerts : Int)
    (irregulars : Option Irregulars) (view : Files.View)
    (hview : view.after [] = ((g.withStatuses status).dump files file).state) :
    let store := g.withStatuses status
    let reloaded := load { dictation, maxAlerts } irregulars view file
    (∃ count, (store.dump files file).result = .ok (some count))
      ∧ reloaded.result = .ok true
      ∧ ∀ key, key ∈ reloaded.state.1.productions.toList.map Production.key
        ↔ key ∈ store.usable.map Production.key := by
  intro store
  have hcoherent : store.Coherent := hg.coherent.withStatuses status
  -- statuses do not matter to how a production was read
  have hread : ∀ p ∈ store.usable, Read p.head p.steps := by
    intro p hp
    obtain ⟨hmem, _⟩ := List.mem_filter.1 hp
    simp only [store, withStatuses, Array.toList_map, List.mem_map] at hmem
    obtain ⟨q, hq, rfl⟩ := hmem
    exact hg.read q hq
  have hwrite : files.write (.ofString file) (groupsText store.groups)
      = .ok (files.insert ((Route.ofString file).resolve files.cwd) (.text (groupsText store.groups))) := by
    rw [Files.write, hwritable]
    rfl
  have hdump := dump_of_write hwrite
  -- a path with an ending has a last part, so the file that was written is the one that is read
  have hparts : (Path.ofString file).parts ≠ [] :=
    fun hnil => hextension (extension_of_parts_eq_nil hnil)
  have hfile : (view.after []).read (.ofPath (Path.ofString file))
      = .ok (.text (groupsText store.groups)) := by
    rw [hview, hdump.1]
    exact Files.read_of_write hwrite hparts
  obtain ⟨hresult, hkeys⟩ := load_groupsText hextension (hcoherent.shows_of_mem_groups hread hfits)
    hfile dictation maxAlerts irregulars
  refine ⟨hdump.2, hresult, fun key => ?_⟩
  rw [hkeys, List.mem_map, List.mem_map]
  simp only [hcoherent.mem_flatMap_groups_iff]

/-- A rule that is disabled is not written, and one that names its head is written and comes back. -/
theorem reload_dump_trip :
    let errand := (expand { dictation := 5, maxAlerts := 10 } "errand" "GO #" "").grammar
    let store := (errand.expand "Trip" "[errand] home" "").grammar.withStatuses fun i =>
      if i = 0 then .disabled else .top
    let reloaded := load { dictation := 5, maxAlerts := 10 } none (store.dump .empty "out.sgm").state
      "out.sgm"
    (∀ p ∈ store.usable, p.Fits) ∧ Files.empty.checkWritable (.ofString "out.sgm") = .ok ()
      ∧ reloaded.result = .ok true
      ∧ ∀ key, key ∈ reloaded.state.1.productions.toList.map Production.key
        ↔ key = keyOf "trip" [⟨"errand", true⟩, ⟨"home", false⟩] := by
  intro errand store reloaded
  have hbuilt : errand.Built := (Built.empty 5 10).expand "errand" "GO #" ""
  have hforms : Forms "Trip" (Text.words "[errand] home") [⟨"errand", true⟩, ⟨"home", false⟩] :=
    forms_iff.2 ⟨by decide, by decide⟩
  -- the first production is disabled
  have husable : store.usable = [⟨1, "Trip", [⟨"errand", true⟩, ⟨"home", false⟩], .top⟩] := by
    have hrules : (errand.expand "Trip" "[errand] home" "").grammar.productions
        = #[⟨0, "errand", [⟨"GO", false⟩, ⟨"#", false⟩], .active⟩,
          ⟨1, "Trip", [⟨"errand", true⟩, ⟨"home", false⟩], .active⟩] := by
      rw [productions_expand_plain hbuilt.tidy (by decide) (by decide) hforms, productions_errand]
      · rfl
      · rw [productions_errand]
        decide
    simp [usable, store, withStatuses, hrules, Status.isUsable]
  have hfits : ∀ p ∈ store.usable, p.Fits := by
    rw [husable]
    intro p hp
    rw [List.mem_singleton.1 hp]
    exact ⟨⟨by decide, by decide, by decide, by simp, by decide⟩, by decide, by decide, by decide⟩
  have hwritable : Files.empty.checkWritable (.ofString "out.sgm") = .ok () := rfl
  obtain ⟨_, hresult, hkeys⟩ := reload_dump (hbuilt.expand "Trip" "[errand] home" "")
    (fun i => if i = 0 then .disabled else .top) hfits (by decide) hwritable 5 10 none
    (store.dump .empty "out.sgm").state rfl
  have hkey : Production.key ⟨1, "Trip", [⟨"errand", true⟩, ⟨"home", false⟩], .top⟩
      = keyOf "trip" [⟨"errand", true⟩, ⟨"home", false⟩] := by decide
  refine ⟨hfits, hwritable, hresult, fun key => ?_⟩
  rw [hkeys, husable, List.map_singleton, List.mem_singleton, hkey]

end Utterance.Grammar
