import Utterance.Proofs.Grammar.Script
import Utterance.Proofs.Interpreter.KnownWords

/-!
# Loading a grammar again

Loading a grammar goes through four stages: the file is read, the inflected forms of its words and a
name to answer to are added, the vocabulary is harvested, and a rule is allowed to start a sentence. No
stage feeds on what a later one has made. The inflected forms go to sections that no form is made of, and
allowing a rule to start a sentence changes no words. So if the files stay as they are, each stage finds
everything done when the grammar is loaded once more.
-/

namespace Utterance

/-! ## What a grammar has for a head -/

namespace Grammar

variable {g : Grammar} {rules : List (String × String)}

/-- A line keeps a grammar coherent. -/
theorem Coherent.grow (h : g.Coherent) (head line : String) : (g.grow head line).Coherent := by
  rw [← grammar_expand g head line ""]
  exact h.expand head line ""

/-- So do rules, one after the other. -/
theorem Coherent.growAll (h : g.Coherent) (rules : List (String × String)) :
    (g.growAll rules).Coherent := by
  induction rules generalizing g with
  | nil => exact h
  | cons rule rules ih => exact ih (h.grow rule.1 rule.2)

/-- A line adds productions of its own head only, and at the end. How many it adds depends on its
sugar and on what is there already. -/
theorem productions_grow (g : Grammar) (head line : String) :
    ∃ new, (g.grow head line).productions.toList = g.productions.toList ++ new
      ∧ ∀ p ∈ new, p.head = head := by
  rw [← grammar_expand g head line ""]
  apply expand_preserves (P := fun g' => ∃ new,
    g'.productions.toList = g.productions.toList ++ new ∧ ∀ p ∈ new, p.head = head) ?_
    ⟨[], by simp, by simp⟩
  rintro _ g' steps ⟨new, hnew, hhead⟩ _ _ _
  refine ⟨new ++ [⟨g'.productions.size, head, steps, .active⟩], ?_, ?_⟩
  · simp only [push, remember_productions, Array.toList_push, hnew, List.append_assoc]
  · intro p hp
    rcases List.mem_append.1 hp with hp | hp
    · exact hhead p hp
    · rw [List.mem_singleton.1 hp]

/-- Only productions with the heads of the rules are added. -/
theorem productions_growAll (g : Grammar) (rules : List (String × String)) :
    ∃ new, (g.growAll rules).productions.toList = g.productions.toList ++ new
      ∧ ∀ p ∈ new, p.head ∈ rules.map Prod.fst := by
  induction rules generalizing g with
  | nil => exact ⟨[], (List.append_nil _).symm, by simp⟩
  | cons rule rules ih =>
    obtain ⟨first, hfirst, hhead⟩ := productions_grow g rule.1 rule.2
    obtain ⟨rest, hrest, hheads⟩ := ih (g.grow rule.1 rule.2)
    refine ⟨first ++ rest, hrest.trans (by rw [hfirst, List.append_assoc]), fun p hp => ?_⟩
    rw [List.map_cons]
    rcases List.mem_append.1 hp with hp | hp
    · exact List.mem_cons.2 (.inl (hhead p hp))
    · exact List.mem_cons_of_mem _ (hheads p hp)

/-- Rules of other heads make no difference. -/
theorem rulesFor_growAll (h : g.Coherent) {head : String}
    (hother : ∀ other ∈ rules.map Prod.fst, Text.lower other ≠ Text.lower head) :
    (g.growAll rules).rulesFor head = g.rulesFor head := by
  obtain ⟨new, hnew, hheads⟩ := productions_growAll g rules
  have hnone : new.filter (fun p => Text.lower p.head == Text.lower head) = [] :=
    List.filter_eq_nil_iff.2 fun p hp => by simpa using hother p.head (hheads p hp)
  rw [(h.growAll rules).rulesFor_eq, h.rulesFor_eq, hnew, List.filter_append, hnone, List.append_nil]

/-- Switching a head to a status twice is the same as once. -/
theorem setStatus_setStatus (g : Grammar) (head : Option String) (status : Status) :
    ((g.setStatus head status).1.setStatus head status).1 = (g.setStatus head status).1 := by
  have hmatches : ∀ p : Production, matchesHead head { p with status } = matchesHead head p :=
    fun p => by cases head <;> rfl
  simp only [setStatus, Array.map_map]
  refine congrArg (fun productions => { g with productions })
    (congrArg (Array.map · g.productions) (funext fun p => ?_))
  by_cases hp : matchesHead head p = true
  · simp [hp, hmatches]
  · simp [hp]

/-- Statuses do not concern the words of a grammar. -/
theorem terminals_setStatus (g : Grammar) (head : Option String) (status : Status) :
    (g.setStatus head status).1.terminals = g.terminals := by
  simp only [terminals, setStatus, Array.toList_map, List.flatMap_map]
  congr 1
  funext p
  split <;> rfl

end Grammar

/-! ## Inflected forms -/

namespace Lexicon

variable {g g' : Grammar}

/-- Nor the phrases of a head, as those are read off the productions whether they may be used or
not. -/
theorem phrases_setStatus (g : Grammar) (top : Option String) (status : Status) (head : String) :
    phrases (g.setStatus top status).1 head = phrases g head := by
  have hrules : (g.setStatus top status).1.rulesFor head
      = (g.rulesFor head).map fun p => if Grammar.matchesHead top p then { p with status } else p := by
    simp only [Grammar.rulesFor, Grammar.setStatus, Array.getElem?_map, List.map_filterMap]
  have hphrase : ∀ p : Production,
      (if Grammar.matchesHead top p then { p with status } else p).isPhrase = p.isPhrase
        ∧ (if Grammar.matchesHead top p then { p with status } else p).phrase = p.phrase :=
    fun p => by split <;> exact ⟨rfl, rfl⟩
  rw [phrases, hrules, List.filter_map, List.map_map]
  simp only [Function.comp_def, hphrase]
  rfl

/-- The same phrases give the same forms. -/
theorem deriveLoaded_congr (h : ∀ head ∈ sources, phrases g' head = phrases g head)
    (m : Irregulars) : deriveLoaded m g' = deriveLoaded m g := by
  have hbases : sources.map (fun head => (head, phrases g' head))
      = sources.map fun head => (head, phrases g head) :=
    List.map_congr_left fun head hhead => by rw [h head hhead]
  rw [deriveLoaded, deriveLoaded, basesOf, basesOf, hbases]

namespace Sections

/-- Pushing an entry opens at most the section of its own name. -/
theorem names_push (name entry : String) (ss : Sections) :
    ∀ s ∈ ss.push name entry, s.1 = name ∨ s.1 ∈ ss.map Prod.fst := by
  induction ss with
  | nil => simp [push]
  | cons first rest ih =>
    obtain ⟨n, es⟩ := first
    intro s hs
    simp only [push] at hs
    -- the section is found here, or it is further down or new
    split at hs
    · rcases List.mem_cons.1 hs with rfl | hs
      · exact .inr (List.mem_cons_self ..)
      · exact .inr (List.mem_cons_of_mem _ (List.mem_map_of_mem hs))
    · rcases List.mem_cons.1 hs with rfl | hs
      · exact .inr (List.mem_cons_self ..)
      · exact (ih s hs).imp_right (List.mem_cons_of_mem _)

/-- The same where a repeated entry is not pushed. -/
theorem names_pushNew (name entry : String) (ss : Sections) :
    ∀ s ∈ ss.pushNew name entry, s.1 = name ∨ s.1 ∈ ss.map Prod.fst := by
  intro s hs
  unfold pushNew at hs
  split at hs
  · exact .inr (List.mem_map_of_mem hs)
  · exact names_push name entry ss s hs

end Sections

/-- Forms go to the sections that derivations lead to, whatever the words are. -/
theorem names_derive (m : Irregulars) (bases : Sections) (check progress : Bool) :
    ∀ s ∈ (derive m bases check progress).1.sections, s.1 ∈ derivations.map (·.target) := by
  have hword : ∀ (d : Derivation) (r : Report) (word : String),
      ∀ s ∈ (deriveWord m check d r word).sections, s.1 = d.target ∨ s.1 ∈ r.sections.map Prod.fst := by
    intro d r word s hs
    unfold deriveWord at hs
    split at hs
    · exact .inr (List.mem_map_of_mem hs)
    · simp only at hs
      split at hs <;> exact Sections.names_pushNew _ _ _ s hs
  -- by induction on the jobs, each of which adds to the section of its derivation only
  refine List.foldlRecOn (jobs bases) _ (motive := fun r : Report =>
    ∀ s ∈ r.sections, s.1 ∈ derivations.map (·.target)) ?_ ?_
  · exact fun _ hs => absurd hs List.not_mem_nil
  · rintro r hr ⟨d, word⟩ hjob s hs
    rcases hword d r word s hs with hname | hold
    · obtain ⟨d', hd', hjobs⟩ := List.mem_flatMap.1 hjob
      obtain ⟨_, _, heq⟩ := List.mem_map.1 hjobs
      obtain ⟨rfl, _⟩ := Prod.mk.inj heq
      exact hname ▸ List.mem_map_of_mem hd'
    · obtain ⟨s', hs', hsame⟩ := List.mem_map.1 hold
      exact hsame ▸ hr s' hs'

/-- No forms are made of forms, or of attention phrases. -/
theorem lower_ne_lower_of_mem_sources :
    ∀ head ∈ sources, ∀ other ∈ Grammar.attention :: derivations.map (·.target),
      Text.lower other ≠ Text.lower head := by
  decide

end Lexicon

/-! ## Known words -/

namespace Vocabulary

/-- What was harvested before makes no difference. -/
theorem harvest_harvest (v : Vocabulary) {g g' : Grammar} (h : g'.terminals = g.terminals) :
    ((v.harvest g).state.harvest g').state = (v.harvest g).state := by
  have hagain : v.clear.clear = v.clear := by simp [clear]
  show ((v.clear.addAll g.terminals).1.clear.addAll g'.terminals).1 = (v.clear.addAll g.terminals).1
  rw [clear_addAll, h, hagain]

end Vocabulary

/-! ## The stages -/

namespace Interpreter

variable {i : Interpreter} {files : Files} {path top name : String}

/-- The rules of the inflected forms. -/
def inflections (i : Interpreter) : List (String × String) :=
  if i.settings.inflecting then
    (Lexicon.deriveLoaded i.irregulars i.grammar).1.sections.flatMap
      fun s => s.2.map fun word => (s.1, word)
  else []

/-- The rule of a name to answer to. -/
def naming (name : String) : List (String × String) :=
  if name.isEmpty then [] else [(Grammar.attention, name)]

/-- The rules that are added to those of a file. -/
def additions (i : Interpreter) (name : String) : List (String × String) :=
  i.inflections ++ naming name

/-- What is added on top of a file has heads of its own, none of which base words are taken from. So
adding it does not change what there is to inflect. -/
theorem lower_ne_lower_of_mem_additions {head other : String} (hhead : head ∈ Lexicon.sources)
    (hother : other ∈ (i.additions name).map Prod.fst) : Text.lower other ≠ Text.lower head := by
  apply Lexicon.lower_ne_lower_of_mem_sources head hhead
  obtain ⟨rule, hrule, rfl⟩ := List.mem_map.1 hother
  rcases List.mem_append.1 hrule with hrule | hrule
  · unfold inflections at hrule
    split at hrule
    · obtain ⟨s, hs, hword⟩ := List.mem_flatMap.1 hrule
      obtain ⟨_, _, rfl⟩ := List.mem_map.1 hword
      exact List.mem_cons_of_mem _ (Lexicon.names_derive _ _ _ _ s hs)
    · cases hrule
  · unfold naming at hrule
    split at hrule
    · cases hrule
    · rw [List.mem_singleton.1 hrule]
      exact List.mem_cons_self ..

/-- Teaching rules is adding them, apart from what is noted. -/
theorem grammar_teach (g : Grammar) (rules : List (String × String)) :
    (teach g rules).grammar = g.growAll rules := by
  have hstep : ∀ (g : Grammar) (rule : String × String),
      (g.extend rule.1 rule.2).grammar = g.grow rule.1 rule.2 :=
    fun g rule => by rw [Grammar.grammar_extend, Grammar.grammar_expand]
  exact (List.foldl_hom Grammar.Growth.grammar fun s rule => (hstep s.grammar rule).symm).symm

/-- Inflecting adds the inflected forms as rules, and changes nothing else. -/
theorem inflect_eq (i : Interpreter) :
    i.inflect.1 = { i with grammar := i.grammar.growAll i.inflections } := by
  unfold inflect inflections
  split
  · simp only [grammar_teach]
  · rfl

/-- Answering to a name adds the rules of that name. -/
theorem answerTo_eq (i : Interpreter) (name : String) :
    (i.answerTo name).1 = { i with grammar := i.grammar.growAll (naming name) } := by
  unfold answerTo naming
  split
  · rfl
  · simp only [Grammar.grammar_extend, Grammar.grammar_expand]
    rfl

/-- Starting with a head switches its productions on. -/
theorem start_eq (i : Interpreter) (top path : String) :
    (i.start top path).1 = { i with grammar := (i.grammar.enable (some top)).1 } := by
  unfold start
  split <;> (rename_i heq; rw [heq])

/-- A front end that has read a file, with everything made ready. -/
def ready (i : Interpreter) (top name : String) : Interpreter :=
  let g := i.grammar.growAll (i.additions name)
  { i with
    grammar := (g.enable (some (if top.isEmpty then i.settings.topRule else top))).1
    vocabulary := (i.vocabulary.harvest g).state }

/-- What is made ready once a file is read. -/
theorem start_harvest_answerTo_inflect (i : Interpreter) (path top name : String) :
    ((i.inflect.1.answerTo name).1.harvest.1.start
        (if top.isEmpty then (i.inflect.1.answerTo name).1.harvest.1.settings.topRule else top) path).1
      = i.ready top name := by
  rw [start_eq, harvest, answerTo_eq, inflect_eq]
  simp only [ready, additions, Grammar.growAll, List.foldl_append]

/-- A file that could be opened is read, and then everything is made ready. -/
theorem loadGrammar_of_readGrammar {view : Files.View}
    (hread : (i.readGrammar view path).result = .ok true) :
    (i.loadGrammar view path top name).state = (i.readGrammar view path).state.ready top name
      ∧ (i.loadGrammar view path top name).result
        = .ok (some ((i.readGrammar view path).state.ready top name).grammar.ruleCount) := by
  rw [← start_harvest_answerTo_inflect _ path]
  unfold loadGrammar
  simp only [hread]
  exact ⟨trivial, trivial⟩

/-! ## Once more -/

/-- The phrases that forms are made of are those of the file. -/
theorem phrases_ready (h : i.grammar.Coherent) {head : String} (hhead : head ∈ Lexicon.sources)
    (top name : String) :
    Lexicon.phrases (i.ready top name).grammar head = Lexicon.phrases i.grammar head := by
  show Lexicon.phrases (Grammar.setStatus _ _ _).1 head = _
  rw [Lexicon.phrases_setStatus, Lexicon.phrases, Lexicon.phrases,
    Grammar.rulesFor_growAll h fun other => lower_ne_lower_of_mem_additions hhead]

/-- Nothing that was added on top of a file leads to more additions. -/
theorem additions_ready (h : i.grammar.Coherent) (top name : String) :
    (i.ready top name).additions name = i.additions name := by
  have hforms : ∀ m, Lexicon.deriveLoaded m (i.ready top name).grammar
      = Lexicon.deriveLoaded m i.grammar :=
    Lexicon.deriveLoaded_congr fun head hhead => phrases_ready h hhead top name
  unfold additions inflections
  rw [hforms]
  rfl

/-- A front end in which everything is ready stays as it is: the names are there, the heads are
enabled, and the words were harvested. -/
theorem ready_ready (h : i.grammar.Coherent) (top name : String) :
    (i.ready top name).ready top name = i.ready top name := by
  have hadditions := additions_ready h top name
  have hgrow : (i.ready top name).grammar.growAll (i.additions name) = (i.ready top name).grammar :=
    Grammar.growAll_of_within (Grammar.within_setStatus _ _ _)
  have hgrammar : ((i.ready top name).ready top name).grammar = (i.ready top name).grammar := by
    show (Grammar.enable (Grammar.growAll _ _) _).1 = _
    rw [hadditions, hgrow]
    exact Grammar.setStatus_setStatus _ _ _
  have hvocabulary : ((i.ready top name).ready top name).vocabulary = (i.ready top name).vocabulary := by
    show (Vocabulary.harvest (Vocabulary.harvest _ _).state (Grammar.growAll _ _)).state = _
    rw [hadditions, hgrow]
    exact Vocabulary.harvest_harvest _ (Grammar.terminals_setStatus _ _ _)
  show { (i.ready top name) with
    grammar := ((i.ready top name).ready top name).grammar
    vocabulary := ((i.ready top name).ready top name).vocabulary } = i.ready top name
  rw [hgrammar, hvocabulary]

/-- The result of reading a file is that of loading it into the grammar. -/
theorem result_readGrammar (i : Interpreter) (view : Files.View) (path : String) :
    (i.readGrammar view path).result
      = (i.grammar.load (if i.linked then some i.irregulars else none) view path).result := by
  simp only [readGrammar]

/-- A file that was read is read again without a change, whatever was added on top of it.

The script of the file leads to rules that are all there, so the grammar stays as it is; and the
lines of irregular forms were entered in the same order, so the table does as well. -/
theorem readGrammar_ready (hread : (i.readGrammar (.still files) path).result = .ok true)
    (top name : String) :
    let j := (i.readGrammar (.still files) path).state.ready top name
    (j.readGrammar (.still files) path).result = .ok true
      ∧ (j.readGrammar (.still files) path).state = j := by
  intro j
  generalize htable : (if i.linked then some i.irregulars else none) = table
  generalize ho : i.grammar.load table (.still files) path = o
  have hj : j = Interpreter.ready
      { i with grammar := o.state.1, irregulars := o.state.2.getD i.irregulars } top name := by
    rw [← ho, ← htable]
    rfl
  have hopened : o.result = .ok true := by
    rw [← ho, ← htable, ← result_readGrammar]
    exact hread
  -- what was entered into is entered into again
  have htable' : (if j.linked then some j.irregulars else none) = o.state.2 := by
    have hsome : o.state.2.isSome = i.linked := by
      rw [← ho, Grammar.isSome_load, ← htable]
      cases i.linked <;> rfl
    rw [hj]
    show (if i.linked then some (o.state.2.getD i.irregulars) else none) = o.state.2
    rw [← hsome]
    cases o.state.2 <;> rfl
  have hwithin : Grammar.Within o.state.1 j.grammar := by
    rw [hj]
    exact (Grammar.within_growAll _ _).trans (Grammar.within_setStatus _ _ _)
  have hpath : j.grammar.path = o.state.1.path := by
    rw [hj]
    exact Grammar.path_growAll _ _
  rw [← ho] at hopened hwithin hpath
  obtain ⟨hopened', hsame⟩ := Grammar.load_of_within hopened hwithin hpath
  rw [ho, ← htable'] at hopened' hsame
  refine ⟨(result_readGrammar j _ _).trans hopened', ?_⟩
  unfold readGrammar
  simp only [hsame]
  have hirregulars : (if j.linked then some j.irregulars else none).getD j.irregulars = j.irregulars := by
    split <;> rfl
  rw [hirregulars]

/-- Loading a grammar once more changes nothing, as long as the files stay as they are: it gives the
same number, and leaves the rules, the attention phrases, the irregular forms and the known words as
they are. -/
theorem loadGrammar_loadGrammar (hbuilt : i.grammar.Built) {n : Nat}
    (hload : (i.loadGrammar (.still files) path top name).result = .ok (some n)) :
    let first := i.loadGrammar (.still files) path top name
    let second := first.state.loadGrammar (.still files) path top name
    second.result = .ok (some n) ∧ second.state = first.state := by
  intro first second
  have hread : (i.readGrammar (.still files) path).result = .ok true := by
    unfold loadGrammar at hload
    simp only at hload
    split at hload
    · cases hload
    · cases hload
    · rename_i hopened
      exact hopened
  obtain ⟨hstate, hresult⟩ := @loadGrammar_of_readGrammar i path top name _ hread
  obtain ⟨hread', hsame⟩ := readGrammar_ready hread top name
  rw [← hstate] at hread' hsame
  obtain ⟨hstate', hresult'⟩ := @loadGrammar_of_readGrammar _ path top name _ hread'
  -- what the second loading reads is there, and making it ready again changes nothing
  have hready : second.state = first.state := by
    rw [hstate', hsame, hstate]
    exact ready_ready (built_readGrammar hbuilt _ _).coherent top name
  refine ⟨?_, hready⟩
  rw [hresult', ← hstate', hready, ← hload, hresult, hstate]

/-- A file that includes no other can be loaded, whatever its lines say: what cannot be read in them
is noted and passed over. -/
theorem exists_result_loadGrammar {view : Files.View} {p : Path} {content : Content}
    {lines : List String} (hpath : Grammar.filePath path = .ok p)
    (hread : (view.after []).read (.ofPath p) = .ok content) (hlines : content.lines = .ok lines)
    (hplain : ∀ raw ∈ lines, Line.startsWith (Line.clean raw) "#include" = false) :
    ∃ n, (i.loadGrammar view path top name).result = .ok (some n) := by
  refine ⟨_, (loadGrammar_of_readGrammar (i := i) ?_).2⟩
  rw [result_readGrammar]
  unfold Grammar.load
  rw [hpath]
  let s : Grammar.Loading :=
    ⟨{ i.grammar with path := some (i.grammar.path.getD p) },
      if i.linked then some i.irregulars else none, []⟩
  have hfile := @Grammar.loadFile_of_read view p s content lines hread hlines
  show (Grammar.loadFile view [] p s).2 = .ok true
  rw [hfile]
  exact Grammar.loadLines_of_forall_not_include hplain _ _ _

/-- A file with one word. -/
def bigFile : Files := { entries := [(["facts.sgm"], .text "=[HQ]\n  big\n")] }

/-- A grammar with inflections and a name is loaded twice. -/
theorem loadGrammar_loadGrammar_big :
    let i : Interpreter := { fresh with settings := { bins := 2 } }
    let first := i.loadGrammar (.still bigFile) "facts.sgm" "" "Ida"
    let second := first.state.loadGrammar (.still bigFile) "facts.sgm" "" "Ida"
    ∃ n, first.result = .ok (some n) ∧ second.result = .ok (some n) ∧ second.state = first.state := by
  intro i first second
  have hpath : Grammar.filePath "facts.sgm" = .ok (Path.ofString "facts.sgm") := rfl
  have hread : bigFile.read (.ofPath (Path.ofString "facts.sgm")) = .ok (.text "=[HQ]\n  big\n") := rfl
  have hlines : Content.lines (.text "=[HQ]\n  big\n") = .ok ["=[HQ]", "  big"] := by decide
  obtain ⟨n, hload⟩ : ∃ n, first.result = .ok (some n) :=
    exists_result_loadGrammar hpath hread hlines (by decide)
  exact ⟨n, hload, loadGrammar_loadGrammar (.empty 5 10) hload⟩

end Interpreter

end Utterance
