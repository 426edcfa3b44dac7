import Utterance.Proofs.Inflection.Possessive
import Utterance.Proofs.Interpreter.Rollback
import Utterance.Proofs.Lexicon.Agreement

/-!
# The forms that are taught

When a grammar is loaded, the phrases of some heads are inflected, and each form is taught to the head of
its derivation. A form gets lost nowhere on the way if it can be read word for word: there is a form of
every phrase, it comes into the section of its derivation whether or not another phrase has the same one,
and a rule that is there already up to case stands for it. Only a form without words is no rule.
-/

namespace Utterance

/-! ## Rules that are added -/

namespace Grammar

variable {g : Grammar} {head line : String} {steps : List Step} {rules : List (String × String)}

/-- Rules keep a grammar tidy. -/
theorem Tidy.growAll (h : g.Tidy) (rules : List (String × String)) : (g.growAll rules).Tidy := by
  induction rules generalizing g with
  | nil => exact h
  | cons rule rules ih =>
    have hgrown : (g.grow rule.1 rule.2).Tidy := by
      rw [← grammar_expand g rule.1 rule.2 ""]
      exact h.expand rule.1 rule.2 ""
    exact ih hgrown

/-- A plain line is there afterwards, be it new or not. -/
theorem Tidy.exists_of_grow (h : g.Tidy) (hplain : Sugar.Plain line.toList)
    (hforms : Forms head (Text.words line) steps) :
    ∃ p ∈ (g.grow head line).productions.toList, p.key = keyOf head steps := by
  -- a line whose key is there already adds nothing, and then that production is the one
  by_cases hthere : ∃ p ∈ g.productions.toList, p.key = keyOf head steps
  · obtain ⟨p, hp, hkey⟩ := hthere
    obtain ⟨new, hnew, _⟩ := productions_grow g head line
    exact ⟨p, hnew ▸ List.mem_append_left _ hp, hkey⟩
  · have hnew : ∀ p ∈ g.productions.toList, p.key ≠ keyOf head steps :=
      fun p hp hkey => hthere ⟨p, hp, hkey⟩
    refine ⟨⟨g.productions.size, head, steps, .active⟩, ?_, rfl⟩
    rw [← grammar_expand g head line "",
      productions_expand_plain h hplain.isNested hplain.sugarless hforms hnew, Array.toList_push]
    exact List.mem_append_right _ (List.mem_singleton_self _)

/-- A rule without sugar is there after it was added, up to the case of its letters. Rules that are
added later take none away. -/
theorem Tidy.exists_of_growAll (h : g.Tidy) (hrule : (head, line) ∈ rules)
    (hplain : Sugar.Plain line.toList) (hforms : Forms head (Text.words line) steps) :
    ∃ p ∈ (g.growAll rules).productions.toList, p.key = keyOf head steps := by
  obtain ⟨before, after, rfl⟩ := List.append_of_mem hrule
  obtain ⟨p, hp, hkey⟩ := (h.growAll before).exists_of_grow hplain hforms
  obtain ⟨new, hnew, _⟩ := productions_growAll ((g.growAll before).grow head line) after
  refine ⟨p, ?_, hkey⟩
  have hsplit : g.growAll (before ++ (head, line) :: after)
      = ((g.growAll before).grow head line).growAll after := by
    simp only [Grammar.growAll, List.foldl_append, List.foldl_cons]
  rw [hsplit, hnew]
  exact List.mem_append_left _ hp

/-- A change of status leaves heads and steps. -/
theorem exists_of_setStatus {p : Production} (hp : p ∈ g.productions.toList) (top : Option String)
    (status : Status) :
    ∃ q ∈ (g.setStatus top status).1.productions.toList, q.head = p.head ∧ q.steps = p.steps := by
  simp only [setStatus, Array.toList_map, List.mem_map]
  exact ⟨_, ⟨p, hp, rfl⟩, by split <;> exact ⟨rfl, rfl⟩⟩

end Grammar

/-! ## Forms -/

namespace Lexicon

variable {m : Irregulars} {bases : Sections} {d : Derivation} {word form : String}

theorem source_mem_sources (hd : d ∈ derivations) : d.source ∈ sources :=
  (by decide : ∀ d ∈ derivations, d.source ∈ sources) d hd

theorem requireClass_of_mem_derivations (hd : d ∈ derivations) : d.tags.requireClass = .ok () :=
  if_pos ((by decide : ∀ d ∈ derivations, d.tags.hasClass = true) d hd)

/-- The tags of a derivation ask for a form of every word. -/
theorem exists_form (hd : d ∈ derivations) (m : Irregulars) (word : String) :
    ∃ form, m.form word d.tags = some form := by
  rw [← Option.isSome_iff_exists]
  unfold Irregulars.form
  split
  · exact Irregulars.isSome_possessiveForm word
  · rename_i hpossessive
    refine Irregulars.isSome_phraseForm (fun word => ?_) word
    -- apart from possessives, all of them are tags for which every word has a regular form
    simp only [derivations, List.mem_cons, List.not_mem_nil, or_false] at hd
    rcases hd with rfl | rfl | rfl | rfl | rfl | rfl | rfl | rfl | rfl | rfl <;>
      first | rfl | exact absurd rfl hpossessive

namespace Sections

/-- An entry stands in a section of its name. -/
theorem exists_section_of_mem_get {ss : Sections} {t entry : String} (h : entry ∈ ss.get t) :
    ∃ es, (t, es) ∈ ss ∧ entry ∈ es := by
  unfold get at h
  cases hes : ss.lookup t with
  | none =>
    rw [hes] at h
    cases h
  | some es =>
    rw [hes] at h
    obtain ⟨before, after, rfl, _⟩ := List.lookup_eq_some_iff.1 hes
    exact ⟨es, List.mem_append_right _ (List.mem_cons_self ..), h⟩

/-- A form that is pushed is there, new or not. -/
theorem mem_get_pushNew (ss : Sections) (name entry : String) : entry ∈ (ss.pushNew name entry).get name := by
  rw [get_pushNew]
  split
  · exact List.mem_append_right _ (List.mem_singleton_self _)
  · rename_i hold
    by_contra hnew
    exact hold ⟨rfl, hnew⟩

/-- What is there stays there. -/
theorem mem_get_pushNew_of_mem {ss : Sections} {t other : String} (h : other ∈ ss.get t)
    (name entry : String) : other ∈ (ss.pushNew name entry).get t := by
  rw [get_pushNew]
  split
  · exact List.mem_append_left _ h
  · exact h

end Sections

/-- A word adds its form to the section that the derivation leads to, if it has one. -/
theorem sections_deriveWord (m : Irregulars) (check : Bool) (d : Derivation) (r : Report) (word : String) :
    (deriveWord m check d r word).sections
      = (m.form word d.tags).elim r.sections (r.sections.pushNew d.target) := by
  unfold deriveWord
  split
  · rename_i hnone
    rw [hnone]
    rfl
  · rename_i form hsome
    rw [hsome]
    simp only
    split <;> rfl

/-- A form that is in its section stays there, whatever else is derived. -/
theorem mem_get_foldl_deriveWord {r : Report} {t : String} (h : form ∈ r.sections.get t) (check : Bool)
    (todo : List (Derivation × String)) :
    form ∈ (todo.foldl (fun r (d, word) => deriveWord m check d r word) r).sections.get t := by
  refine List.foldlRecOn todo _ (motive := fun r : Report => form ∈ r.sections.get t) h ?_
  rintro r hr ⟨d, word⟩ _
  simp only [sections_deriveWord]
  cases m.form word d.tags with
  | none => exact hr
  | some _ => exact Sections.mem_get_pushNew_of_mem hr _ _

/-- The form of a word of a base section is in the section of its derivation. -/
theorem mem_get_derive (hd : d ∈ derivations) (hword : word ∈ bases.get d.source)
    (hform : m.form word d.tags = some form) (check progress : Bool) :
    form ∈ (derive m bases check progress).1.sections.get d.target := by
  have hjob : (d, word) ∈ jobs bases :=
    List.mem_flatMap.2 ⟨d, hd, List.mem_map_of_mem hword⟩
  obtain ⟨before, after, hjobs⟩ := List.append_of_mem hjob
  simp only [derive, hjobs, List.foldl_append, List.foldl_cons]
  apply mem_get_foldl_deriveWord
  rw [sections_deriveWord, hform]
  exact Sections.mem_get_pushNew _ _ _

/-- A form that is read word for word. -/
structure Literal (form : String) : Prop where
  sugarless : ∀ c ∈ form.toList, c ∉ ['(', ')', '+', '*', '?']
  unopened : ∀ w ∈ Text.words form, ∀ c ∈ w.toList.head?, c ≠ '[' ∧ c ≠ '<'
  unclosed : ∀ w ∈ Text.words form, ∀ c ∈ w.toList.getLast?, c ≠ ']' ∧ c ≠ '>'

instance : DecidablePred Literal := fun form =>
  decidable_of_iff (form.toList.all (fun c => c ∉ ['(', ')', '+', '*', '?'])
      ∧ (Text.words form).all (fun w => w.toList.head?.all fun c => c ≠ '[' && c ≠ '<')
      ∧ (Text.words form).all (fun w => w.toList.getLast?.all fun c => c ≠ ']' && c ≠ '>')) <| by
    constructor
    · intro ⟨hsugarless, hunopened, hunclosed⟩
      exact ⟨by simpa using hsugarless, by simpa [Option.all_eq_true] using hunopened,
        by simpa [Option.all_eq_true] using hunclosed⟩
    · intro h
      exact ⟨by simpa using h.sugarless, by simpa [Option.all_eq_true] using h.unopened,
        by simpa [Option.all_eq_true] using h.unclosed⟩

theorem Literal.forms (h : Literal form) (hwords : Text.words form ≠ []) (head : String) :
    Grammar.Forms head (Text.words form) (stepsOf form) :=
  Grammar.forms_words hwords h.unopened h.unclosed head

end Lexicon

/-! ## Loading -/

namespace Interpreter

variable {i : Interpreter} {view : Files.View} {path top name : String}

/-- A grammar that was loaded was read before. -/
theorem readGrammar_of_loadGrammar {n : Nat}
    (h : (i.loadGrammar view path top name).result = .ok (some n)) :
    (i.readGrammar view path).result = .ok true := by
  unfold loadGrammar at h
  simp only at h
  split at h
  · cases h
  · cases h
  · rename_i hopened
    exact hopened

/-- The form of a phrase is among the rules that are added to those of a file, under the head that
the derivation leads to. Whether forms are checked does not matter. -/
theorem mem_additions {d : Lexicon.Derivation} (hd : d ∈ Lexicon.derivations)
    (hinflecting : i.settings.inflecting = true) {phrase form : String}
    (hphrase : phrase ∈ Lexicon.phrases i.grammar d.source)
    (hform : i.irregulars.form phrase d.tags = some form) (name : String) :
    (d.target, form) ∈ i.additions name := by
  rw [← Lexicon.get_basesOf _ (Lexicon.source_mem_sources hd)] at hphrase
  have hget := Lexicon.mem_get_derive hd hphrase hform false false
  obtain ⟨entries, hsection, hentry⟩ := Lexicon.Sections.exists_section_of_mem_get hget
  unfold additions inflections
  rw [if_pos hinflecting]
  exact List.mem_append_left _ (List.mem_flatMap.2 ⟨_, hsection, List.mem_map_of_mem hentry⟩)

theorem irregulars_ready (i : Interpreter) (top name : String) :
    (i.ready top name).irregulars = i.irregulars := rfl

/-- The forms of the phrases of a front end that is made ready are rules, if they are read word for word
and have a word. -/
theorem exists_of_ready (hbuilt : i.grammar.Built) (hinflecting : i.settings.inflecting = true)
    {d : Lexicon.Derivation} (hd : d ∈ Lexicon.derivations) {p : Production}
    (hp : p ∈ (i.ready top name).grammar.productions.toList)
    (hsource : Text.lower p.head = Text.lower d.source) (hphrase : p.isPhrase = true) {form : String}
    (hform : i.irregulars.form p.phrase d.tags = some form) (hliteral : Lexicon.Literal form)
    (hwords : Text.words form ≠ []) :
    ∃ q ∈ (i.ready top name).grammar.productions.toList,
      q.key = Grammar.keyOf d.target (Lexicon.stepsOf form) := by
  have hcoherent : (i.ready top name).grammar.Coherent :=
    (hbuilt.coherent.growAll _).setStatus _ _
  have hphrases : p.phrase ∈ Lexicon.phrases (i.ready top name).grammar d.source := by
    refine List.mem_map_of_mem (List.mem_filter.2 ⟨?_, hphrase⟩)
    rw [hcoherent.rulesFor_eq, List.mem_filter, hsource]
    exact ⟨hp, beq_self_eq_true _⟩
  rw [phrases_ready hbuilt.coherent (Lexicon.source_mem_sources hd)] at hphrases
  have hrule := mem_additions hd hinflecting hphrases hform name
  obtain ⟨p', hp', hkey⟩ := hbuilt.tidy.exists_of_growAll hrule (Sugar.plain_iff.2 hliteral.sugarless)
    (hliteral.forms hwords d.target)
  obtain ⟨q, hq, hhead, hsteps⟩ := Grammar.exists_of_setStatus hp'
    (some (if top.isEmpty then i.settings.topRule else top)) .top
  refine ⟨q, hq, ?_⟩
  rw [← hkey, Production.key, Production.key, hhead, hsteps]

/-- Every inflected form is taught when a grammar is loaded with inflection. Each derivation has a form
of each plain phrase of the head that it starts from, and if that form is read word for word and has a
word, its words are a rule of the head that the derivation leads to, up to case. All words of the grammar
are known. -/
theorem loadGrammar_inflects (hbuilt : i.grammar.Built) {n : Nat}
    (hload : (i.loadGrammar view path top name).result = .ok (some n))
    (hinflecting : i.settings.inflecting = true) :
    let after := (i.loadGrammar view path top name).state
    (∀ d ∈ Lexicon.derivations, ∀ p ∈ after.grammar.productions.toList,
      Text.lower p.head = Text.lower d.source → p.isPhrase = true →
      ∃ form, after.irregulars.surface p.phrase d.tags = .ok (some form)
        ∧ (Lexicon.Literal form → Text.words form ≠ [] → ∃ q ∈ after.grammar.productions.toList,
          q.key = Grammar.keyOf d.target (Lexicon.stepsOf form)))
      ∧ ∀ word ∈ after.grammar.terminals, word ≠ Step.wildcard → after.vocabulary.known word = true := by
  intro after
  have hread := built_readGrammar hbuilt view path
  have hinflecting' : (i.readGrammar view path).state.settings.inflecting = true := by
    simp only [readGrammar, hinflecting]
  have hafter : after = (i.readGrammar view path).state.ready top name :=
    (loadGrammar_of_readGrammar (readGrammar_of_loadGrammar hload)).1
  refine ⟨fun d hd p hp hsource hphrase => ?_, fun word hword hwild => ?_⟩
  · obtain ⟨form, hform⟩ := Lexicon.exists_form hd after.irregulars p.phrase
    have hsurface : after.irregulars.surface p.phrase d.tags = .ok (some form) := by
      rw [Irregulars.surface, Lexicon.requireClass_of_mem_derivations hd, hform]
      rfl
    refine ⟨form, hsurface, fun hliteral hwords => ?_⟩
    rw [hafter] at hp hform ⊢
    rw [irregulars_ready] at hform
    exact exists_of_ready hread hinflecting' hd hp hsource hphrase hform hliteral hwords
  -- the words are harvested after the forms were taught
  · exact knows_loadGrammar hbuilt hload hwild hword

/-- A front end that was taught one word of a head, and inflects the words that it loads. -/
def inflector (head word : String) : Interpreter :=
  { taught head word with settings := { bins := 2 } }

/-- The grammar of the example was built by one rule. -/
theorem built_inflector (head word : String) : (inflector head word).grammar.Built :=
  (reached_taught head word).built

/-- That rule is its production. -/
theorem mem_productions_inflector {head word : String} (hplain : Grammar.Plain word) :
    ⟨0, head, Grammar.wordSteps word, .active⟩ ∈ (inflector head word).grammar.productions.toList := by
  show _ ∈ (taught head word).grammar.productions.toList
  rw [productions_taught hplain]
  exact List.mem_singleton_self _

/-- A file without lines is loaded, and rules that were there before it count as well: inflection
looks at the whole grammar and not at what the file has added. -/
theorem exists_of_loadGrammar_blankFile {p : Production} (hp : p ∈ i.grammar.productions.toList) :
    let o := i.loadGrammar blankFile "facts.sgm" "" ""
    (∃ n, o.result = .ok (some n)) ∧ o.state.irregulars = i.irregulars
      ∧ ∃ q ∈ o.state.grammar.productions.toList, q.head = p.head ∧ q.steps = p.steps := by
  intro o
  have hpath : Grammar.filePath "facts.sgm" = .ok (Path.ofString "facts.sgm") := rfl
  have hfile : (blankFile.after []).read (.ofPath (Path.ofString "facts.sgm")) = .ok (.text "") := rfl
  obtain ⟨notes, hread⟩ := @readGrammar_of_lines_eq_nil i _ _ _ _ hpath hfile rfl
  obtain ⟨hstate, hresult⟩ := @loadGrammar_of_readGrammar i "facts.sgm" "" "" blankFile (by rw [hread])
  rw [hread] at hstate
  refine ⟨⟨_, hresult⟩, by rw [hstate, irregulars_ready], ?_⟩
  rw [hstate]
  obtain ⟨new, hnew, _⟩ := Grammar.productions_growAll { i.grammar with path := _ } _
  exact Grammar.exists_of_setStatus (hnew ▸ List.mem_append_left _ hp) _ _

/-- The comparative of the only adjective is taught. -/
theorem loadGrammar_inflects_big :
    let o := (inflector "HQ" "big").loadGrammar blankFile "facts.sgm" "" ""
    (inflector "HQ" "big").settings.inflecting = true ∧ (∃ n, o.result = .ok (some n))
      ∧ ∃ q ∈ o.state.grammar.productions.toList, q.key = Grammar.keyOf "HQ-ER" [⟨"bigger", false⟩] := by
  intro o
  have hphrase := @mem_productions_inflector "HQ" "big"
    (Grammar.plain_of_isWordPart (by decide) (by decide))
  obtain ⟨⟨n, hload⟩, hirregulars, p, hp, hhead, hsteps⟩ := exists_of_loadGrammar_blankFile hphrase
  obtain ⟨hforms, _⟩ := loadGrammar_inflects (built_inflector "HQ" "big") hload rfl
  obtain ⟨form, hform, htaught⟩ := hforms ⟨"HQ", "HQ-ER", .single .comparative, "comparative adjectives"⟩
    (by simp [Lexicon.derivations]) p hp (by rw [hhead]) (by rw [Production.isPhrase, hsteps]; decide)
  rw [hirregulars, Production.phrase, hsteps] at hform
  obtain rfl : form = "bigger" := by
    have hbigger : (inflector "HQ" "big").irregulars.surface "big" (.single .comparative)
        = .ok (some "bigger") := by decide
    exact Option.some.inj (Except.ok.inj (hform.symm.trans hbigger))
  exact ⟨rfl, ⟨n, hload⟩, htaught (by decide) (by decide)⟩

/-- A front end that inflects the word `dog`, whose plural has no words. -/
def plurallessDog : Interpreter :=
  { inflector "AKO" "dog" with
    irregulars := (fresh.irregulars.add "dog" (.single .plural) " ").state }

/-- A form without words is not taught. Its line has no steps, and a production without steps is not
made. -/
theorem loadGrammar_skips_blank_form :
    let o := plurallessDog.loadGrammar blankFile "facts.sgm" "" ""
    plurallessDog.settings.inflecting = true ∧ (∃ n, o.result = .ok (some n))
      ∧ (∃ p ∈ o.state.grammar.productions.toList, p.head = "AKO" ∧ p.isPhrase = true ∧ p.phrase = "dog")
      ∧ o.state.irregulars.surface "dog" (.single .plural) = .ok (some " ")
      ∧ Lexicon.Literal " "
      ∧ ∀ q ∈ o.state.grammar.productions.toList,
        q.key ≠ Grammar.keyOf "AKO-S" (Lexicon.stepsOf " ") := by
  intro o
  have hphrase : (⟨0, "AKO", Grammar.wordSteps "dog", .active⟩ : Production)
      ∈ plurallessDog.grammar.productions.toList :=
    mem_productions_inflector (Grammar.plain_of_isWordPart (by decide) (by decide))
  obtain ⟨hload, hirregulars, p, hp, hhead, hsteps⟩ := exists_of_loadGrammar_blankFile hphrase
  have hbuilt : plurallessDog.grammar.Built := built_inflector "AKO" "dog"
  refine ⟨rfl, hload, ⟨p, hp, hhead, ?_, ?_⟩, ?_, by decide, fun q hq hkey => ?_⟩
  · rw [Production.isPhrase, hsteps]
    decide
  · rw [Production.phrase, hsteps]
    rfl
  · rw [hirregulars]
    decide
  -- every production has a step
  · obtain ⟨_, _, hforms⟩ := (built_loadGrammar hbuilt _ _ _ _).read q hq
    exact hforms.ne_nil (List.map_eq_nil_iff.1 (congrArg RuleKey.steps hkey))

end Interpreter

end Utterance
