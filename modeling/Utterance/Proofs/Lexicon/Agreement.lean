import Utterance.Lexicon.Loaded
import Utterance.Proofs.Grammar.Dump
import Utterance.Proofs.Grammar.Representation
import Utterance.Proofs.Grammar.Rules
import Utterance.Proofs.Interpreter.Reload
import Utterance.Proofs.Lexicon.Sections
import Utterance.Proofs.Storage
import Utterance.Proofs.Text.LowerCase

/-!
# Two readings of a lexicon

The base words of a lexicon file are collected from its lines, or taken from the grammar that the file is
loaded into. Between the two stand the rules of the file, each an entry with the head that it stands
under. Collecting picks the entries of a head from them in their order. So does loading, if each entry
stands for itself: it is not rewritten, it is not the same as an earlier one up to case, and its words
come back with single spaces between them.
-/

namespace Utterance

namespace Lexicon

/-! ## The rules that are collected -/

/-- The section that is collected while the lines of a section are read. -/
def opened (wanted : List String) : Grammar.Section → Option String
  | .rules head => (some (Text.upper head)).filter wanted.contains
  | _ => none

/-- The sections after a rule. -/
def keep (wanted : List String) (found : Sections) : Option (String × String) → Sections
  | none => found
  | some rule => if Text.upper rule.1 ∈ wanted then found.push (Text.upper rule.1) rule.2 else found

/-- The line of a head opens its section in both readings. No section of irregular forms is asked
for, so leaving those out in one of the readings makes no difference. -/
theorem opened_after {wanted : List String} {line : String} {sec : Grammar.Section}
    (hplain : Line.startsWith line "#include" = false) (hrule : Line.startsWith line "=" = true)
    (hregular : ∀ name, Line.header? line = some name → Line.isIrregularHead name = true →
      Text.upper name ∉ wanted) :
    opened wanted (sec.after line) = ((Line.header? line).map Text.upper).filter wanted.contains := by
  rw [Grammar.Section.after, hplain, hrule, if_neg (by decide), if_pos rfl]
  cases hheader : Line.header? line with
  | none => rfl
  | some name =>
    cases hirregular : Line.isIrregularHead name with
    | true =>
      have hnot := hregular name hheader hirregular
      simp [opened, Option.filter, hirregular, hnot]
    | false => simp [opened, hirregular]

/-- A line is collected as the rule that it adds. This is the step of the comparison: the two
readings keep different states, and `opened` and `keep` translate the one into the other. -/
theorem collect_cons {wanted : List String} {raw : String}
    (hplain : Line.startsWith (Line.clean raw) "#include" = false)
    (hregular : ∀ name, Line.header? (Line.clean raw) = some name → Line.isIrregularHead name = true →
      Text.upper name ∉ wanted) (sec : Grammar.Section) (found : Sections) (rest : List String) :
    collect wanted (opened wanted sec) found (raw :: rest)
      = collect wanted (opened wanted (sec.after (Line.clean raw)))
        (keep wanted found (Grammar.ruleOf? sec (Line.clean raw))) rest := by
  rw [collect.eq_def]
  -- a head opens or closes the section, any other line goes to the section that is open
  cases hrule : Line.startsWith (Line.clean raw) "=" with
  | true =>
    have hnone : Grammar.ruleOf? sec (Line.clean raw) = none := by
      cases sec <;> simp [Grammar.ruleOf?, hrule]
    simp only [hrule, if_true]
    rw [opened_after hplain hrule hregular, hnone, keep]
  | false =>
    have hafter : sec.after (Line.clean raw) = sec := by simp [Grammar.Section.after, hplain, hrule]
    simp only [hrule, hafter, Bool.false_eq_true, if_false]
    cases sec with
    | none => simp only [opened, Grammar.ruleOf?, keep]
    | irregular => simp only [opened, Grammar.ruleOf?, keep]
    | rules head =>
      cases hempty : (Line.clean raw).isEmpty <;> by_cases hhead : Text.upper head ∈ wanted <;>
        simp [opened, Option.filter, keep, Grammar.ruleOf?, hrule, hplain, hempty, hhead]

/-- The entries of the rules whose heads satisfy a condition. -/
def entriesOf (p : String → Bool) (rules : List (String × String)) : List String :=
  (rules.filter fun rule => p rule.1).map (·.2)

/-- What a rule adds to a section. -/
theorem get_keep {wanted : List String} {t : String} (ht : t ∈ wanted) (found : Sections)
    (rule : Option (String × String)) :
    (keep wanted found rule).get t
      = found.get t ++ entriesOf (Text.upper · == t) rule.toList := by
  cases rule with
  | none => simp [keep, entriesOf]
  | some rule =>
    rw [keep]
    by_cases hname : Text.upper rule.1 = t
    · rw [if_pos (hname ▸ ht), Sections.get_push, if_pos hname.symm]
      simp [entriesOf, hname]
    -- a rule of another section adds nothing here, whether it is kept or not
    · have hother : entriesOf (Text.upper · == t) [rule] = [] := by simp [entriesOf, hname]
      rw [Option.toList_some, hother, List.append_nil]
      split
      · rw [Sections.get_push, if_neg (Ne.symm hname)]
      · rfl

/-- What is collected for a head are the entries of its rules in their order. -/
theorem get_collect {wanted lines : List String} {t : String} (ht : t ∈ wanted)
    (hplain : ∀ raw ∈ lines, Line.startsWith (Line.clean raw) "#include" = false)
    (hregular : ∀ raw ∈ lines, ∀ name, Line.header? (Line.clean raw) = some name →
      Line.isIrregularHead name = true → Text.upper name ∉ wanted)
    (sec : Grammar.Section) (found : Sections) :
    (collect wanted (opened wanted sec) found lines).get t
      = found.get t ++ entriesOf (Text.upper · == t) (Grammar.rulesOf sec lines) := by
  -- by induction on the lines, with the section that is open and what has been collected
  induction lines generalizing sec found with
  | nil => simp [collect, Grammar.rulesOf, entriesOf]
  | cons raw lines ih =>
    have ih := ih (fun other hother => hplain other (List.mem_cons_of_mem _ hother))
      (fun other hother => hregular other (List.mem_cons_of_mem _ hother))
    rw [collect_cons (hplain raw (List.mem_cons_self ..)) (hregular raw (List.mem_cons_self ..)), ih,
      get_keep ht, Grammar.rulesOf, List.append_assoc]
    simp [entriesOf]

/-! ## The rules that are loaded -/

/-- An entry that stands for itself in a grammar. -/
structure Verbatim (entry : String) : Prop where
  /-- There are single spaces between its words, and no others. -/
  spaced : " ".intercalate (Text.words entry) = entry
  sugarless : ∀ c ∈ entry.toList, c ∉ ['(', ')', '+', '*', '?']
  fixed : ∀ w ∈ Text.words entry, w ≠ "#"
  unopened : ∀ w ∈ Text.words entry, ∀ c ∈ w.toList.head?, c ≠ '[' ∧ c ≠ '<'
  unclosed : ∀ w ∈ Text.words entry, ∀ c ∈ w.toList.getLast?, c ≠ ']' ∧ c ≠ '>'

instance : DecidablePred Verbatim := fun entry =>
  decidable_of_iff (" ".intercalate (Text.words entry) = entry
      ∧ entry.toList.all (fun c => c ∉ ['(', ')', '+', '*', '?']) ∧ (∀ w ∈ Text.words entry, w ≠ "#")
      ∧ (Text.words entry).all (fun w => w.toList.head?.all fun c => c ≠ '[' && c ≠ '<')
      ∧ (Text.words entry).all (fun w => w.toList.getLast?.all fun c => c ≠ ']' && c ≠ '>')) <| by
    constructor
    · intro ⟨hspaced, hsugarless, hfixed, hunopened, hunclosed⟩
      exact ⟨hspaced, by simpa using hsugarless, hfixed, by simpa [Option.all_eq_true] using hunopened,
        by simpa [Option.all_eq_true] using hunclosed⟩
    · intro h
      exact ⟨h.spaced, by simpa using h.sugarless, h.fixed, by simpa [Option.all_eq_true] using h.unopened,
        by simpa [Option.all_eq_true] using h.unclosed⟩

/-- The steps of an entry that stands for itself. -/
def stepsOf (entry : String) : List Step := (Text.words entry).map fun w => ⟨w, false⟩

namespace Verbatim

variable {entry other head : String}

/-- There is no sugar in such an entry. -/
theorem plain (h : Verbatim entry) : Sugar.Plain entry.toList := Sugar.plain_iff.2 h.sugarless

/-- Such an entry is read as one production with just its words. -/
theorem forms (h : Verbatim entry) (hne : entry ≠ "") (head : String) :
    Grammar.Forms head (Text.words entry) (stepsOf entry) := by
  have hwords : Text.words entry ≠ [] := by
    intro hnil
    have hspaced := h.spaced
    rw [hnil] at hspaced
    exact hne hspaced.symm
  exact Grammar.forms_words hwords h.unopened h.unclosed head

/-- Entries with the same key are the same up to case. -/
theorem lower_eq_of_folded (h : Verbatim entry) (h' : Verbatim other)
    (hfolded : (stepsOf entry).map Step.folded = (stepsOf other).map Step.folded) :
    Text.lower entry = Text.lower other := by
  have hwords : (Text.words entry).map Text.lower = (Text.words other).map Text.lower := by
    have hsymbols := congrArg (List.map Step.symbol) hfolded
    simpa [stepsOf, Step.folded, Function.comp_def] using hsymbols
  rw [← h.spaced, ← h'.spaced, Text.lower_intercalate, hwords, Text.lower_intercalate]

end Verbatim

/-! ## The phrases of a head -/

variable {g : Grammar} {rules : List (String × String)} {t : String}

/-- Whether a head is another one up to case. -/
def likeHead (t head : String) : Bool := Text.lower head == Text.lower t

/-- An entry that no phrase of its head is, up to case, adds its production at the end. -/
theorem productions_grow_of_fresh {done : List String} {head line : String} (hcoherent : g.Coherent)
    (htidy : g.Tidy) (hhead : Text.lower head = Text.lower t)
    (hdone : (g.rulesFor t).map (·.steps) = done.map stepsOf) (hverbatim : ∀ entry ∈ done, Verbatim entry)
    (hline : Verbatim line) (hne : line ≠ "")
    (hfresh : ∀ entry ∈ done, Text.lower entry ≠ Text.lower line) :
    (g.grow head line).productions
      = g.productions.push ⟨g.productions.size, head, stepsOf line, .active⟩ := by
  have hnew : ∀ p ∈ g.productions.toList, p.key ≠ Grammar.keyOf head (stepsOf line) := by
    intro p hp hkey
    obtain ⟨hsame, hfolded⟩ := RuleKey.mk.inj hkey
    -- a production with this key would be one of those that have been added for the entries before
    have hrule : p ∈ g.rulesFor t := by
      rw [hcoherent.rulesFor_eq, List.mem_filter, hsame, hhead]
      exact ⟨hp, beq_self_eq_true _⟩
    have hsteps : p.steps ∈ done.map stepsOf := hdone ▸ List.mem_map_of_mem hrule
    obtain ⟨entry, hentry, hsteps⟩ := List.mem_map.1 hsteps
    rw [← hsteps] at hfolded
    exact hfresh entry hentry ((hverbatim entry hentry).lower_eq_of_folded hline hfolded)
  rw [← Grammar.grammar_expand g head line ""]
  exact Grammar.productions_expand_plain htidy hline.plain.isNested hline.plain.sugarless
    (hline.forms hne head) hnew ""

/-- Distinct entries of a head come to the end of its productions, one production for each. -/
theorem steps_growAll {done : List String} (hcoherent : g.Coherent) (htidy : g.Tidy)
    (hdone : (g.rulesFor t).map (·.steps) = done.map stepsOf)
    (hverbatim : ∀ entry ∈ done ++ entriesOf (likeHead t) rules, Verbatim entry ∧ entry ≠ "")
    (hdistinct : ((done ++ entriesOf (likeHead t) rules).map Text.lower).Nodup) :
    ((g.growAll rules).rulesFor t).map (·.steps)
      = (done ++ entriesOf (likeHead t) rules).map stepsOf := by
  -- by induction on the rules; `done` are the entries whose productions are there already
  induction rules generalizing g done with
  | nil => simpa [entriesOf, Grammar.growAll] using hdone
  | cons rule rules ih =>
    obtain ⟨head, line⟩ := rule
    have hgrown : (g.grow head line).Coherent := hcoherent.grow head line
    have htidy' : (g.grow head line).Tidy := by
      rw [← Grammar.grammar_expand g head line ""]
      exact htidy.expand head line ""
    show (((g.grow head line).growAll rules).rulesFor t).map (·.steps) = _
    -- a rule of the head pushes a production, and one of another head leaves the head alone
    by_cases hhead : Text.lower head = Text.lower t
    · have hentries : entriesOf (likeHead t) ((head, line) :: rules)
          = line :: entriesOf (likeHead t) rules := by
        simp [entriesOf, likeHead, hhead]
      rw [hentries, List.append_cons] at hverbatim hdistinct ⊢
      obtain ⟨hline, hne⟩ := hverbatim line (by simp)
      have hfresh : ∀ entry ∈ done, Text.lower entry ≠ Text.lower line := by
        intro entry hentry hlower
        rw [List.map_append, List.map_append, List.append_assoc] at hdistinct
        exact List.disjoint_of_nodup_append hdistinct (List.mem_map_of_mem hentry) (by simp [hlower])
      have hpushed := productions_grow_of_fresh hcoherent htidy hhead hdone
        (fun entry hentry => (hverbatim entry (by simp [hentry])).1) hline hne hfresh
      apply ih hgrown htidy' _ hverbatim hdistinct
      rw [hgrown.rulesFor_eq, hpushed, Array.toList_push, List.filter_append, List.map_append,
        ← hcoherent.rulesFor_eq, hdone]
      simp [hhead]
    · have hentries : entriesOf (likeHead t) ((head, line) :: rules)
          = entriesOf (likeHead t) rules := by
        simp [entriesOf, likeHead, hhead]
      rw [hentries] at hverbatim hdistinct ⊢
      have hsame : (g.growAll [(head, line)]).rulesFor t = g.rulesFor t :=
        Grammar.rulesFor_growAll hcoherent (by simpa using hhead)
      apply ih hgrown htidy' _ hverbatim hdistinct
      rw [← hdone, ← hsame]
      rfl

/-- Productions for entries that stand for themselves are phrases, and these are the entries. The
induction goes along both lists together. -/
theorem map_phrase_filter_isPhrase {ps : List Production} {entries : List String}
    (hsteps : ps.map (·.steps) = entries.map stepsOf) (hverbatim : ∀ entry ∈ entries, Verbatim entry) :
    (ps.filter Production.isPhrase).map Production.phrase = entries := by
  induction ps generalizing entries with
  | nil =>
    rw [List.map_nil, eq_comm, List.map_eq_nil_iff] at hsteps
    rw [hsteps]
    rfl
  | cons p ps ih =>
    cases entries with
    | nil => cases hsteps
    | cons entry entries =>
      rw [List.map_cons, List.map_cons, List.cons.injEq] at hsteps
      have hentry := hverbatim entry (List.mem_cons_self ..)
      -- an entry that stands for itself has no wildcards and single spaces
      have hphrase : p.isPhrase = true := by
        rw [Production.isPhrase, hsteps.1, List.all_eq_true]
        intro step hstep
        obtain ⟨w, hw, rfl⟩ := List.mem_map.1 hstep
        simpa [Step.isWild, Step.wildcard] using hentry.fixed w hw
      have htext : p.phrase = entry := by
        have hspaced := hentry.spaced
        rw [Production.phrase, hsteps.1]
        simpa [stepsOf, Function.comp_def] using hspaced
      rw [List.filter_cons_of_pos hphrase, List.map_cons, htext,
        ih hsteps.2 fun other hother => hverbatim other (List.mem_cons_of_mem _ hother)]

/-! ## Base sections -/

/-- Sections of several names, where an empty one is left out. A section that is left out is read as
an empty one, so nothing is lost. -/
theorem get_filter_map (entries : String → List String) (names : List String) :
    Sections.get ((names.map fun name => (name, entries name)).filter fun found => !found.2.isEmpty) t
      = if t ∈ names then entries t else [] := by
  induction names with
  | nil => rfl
  | cons name names ih =>
    cases hempty : (entries name).isEmpty with
    | true =>
      rw [List.map_cons, List.filter_cons_of_neg (by simp [hempty]), ih]
      by_cases hname : t = name
      · rw [hname, List.isEmpty_iff.1 hempty]
        simp
      · simp [hname]
    | false =>
      rw [List.map_cons, List.filter_cons_of_pos (by simp [hempty]), Sections.get_cons, ih]
      by_cases hname : t = name
      · simp [hname]
      · simp [hname]

/-- The base words of a head are its phrases in the grammar. -/
theorem get_basesOf (g : Grammar) (ht : t ∈ sources) : (basesOf g).get t = phrases g t :=
  (get_filter_map (phrases g) sources).trans (if_pos ht)

/-- The same base words give the same forms and problems; the derivation looks at nothing else. -/
theorem derive_congr {bases bases' : Sections} (h : ∀ t ∈ sources, bases.get t = bases'.get t)
    (m : Irregulars) (check progress progress' : Bool) :
    (derive m bases check progress).1 = (derive m bases' check progress').1 := by
  have hsource : ∀ d ∈ derivations, d.source ∈ sources := by simp [derivations, sources]
  have hjobs : jobs bases = jobs bases' := by
    apply List.flatMap_congr
    intro d hd
    rw [h d.source (hsource d hd)]
  rw [derive, derive, hjobs]

/-! ## Both readings -/

/-- The lines of a lexicon that means the same in both readings. -/
structure Straight (lines : List String) : Prop where
  /-- No file is included. -/
  whole : ∀ raw ∈ lines, Line.startsWith (Line.clean raw) "#include" = false
  /-- The heads are written in the basic alphabet. -/
  basic : ∀ raw ∈ lines, ∀ name, Line.header? (Line.clean raw) = some name →
    ∀ c ∈ name.toList, c.toNat < 128
  verbatim : ∀ t ∈ sources, ∀ entry ∈ (collect sources none [] lines).get t, Verbatim entry
  /-- No entry comes twice under a head, in whatever case. -/
  distinct : ∀ t ∈ sources, (((collect sources none [] lines).get t).map Text.lower).Nodup

/-- The heads that base words come from are written in capitals of the basic alphabet. -/
theorem sources_facts : ∀ t ∈ sources, Text.upper t = t ∧ (∀ c ∈ t.toList, c.toNat < 128)
    ∧ Line.isIrregularHead t = false := by
  have hall : sources.all fun t => Text.upper t == t && t.toList.all (·.toNat < 128)
      && !Line.isIrregularHead t := by
    decide
  simpa [and_assoc] using hall

namespace Straight

variable {lines : List String}

/-- Two readings compare heads in capitals and in small letters; for the basic alphabet both say the
same. -/
theorem upper_eq_iff (h : Straight lines) (ht : t ∈ sources) {raw name : String} (hraw : raw ∈ lines)
    (hname : Line.header? (Line.clean raw) = some name) :
    Text.upper name = t ↔ Text.lower name = Text.lower t := by
  obtain ⟨hupper, hbasic, _⟩ := sources_facts t ht
  have hiff := Text.upper_eq_iff_lower_eq (h.basic raw hraw name hname) hbasic
  rwa [hupper] at hiff

/-- The base words of a head are the entries of its rules. The two readings of a lexicon agree on
what a line is, and differ in the case in which they look a head up. -/
theorem get_collect_eq (h : Straight lines) (ht : t ∈ sources) :
    (collect sources none [] lines).get t = entriesOf (likeHead t) (Grammar.rulesOf .none lines) := by
  have hregular : ∀ raw ∈ lines, ∀ name, Line.header? (Line.clean raw) = some name →
      Line.isIrregularHead name = true → Text.upper name ∉ sources := by
    intro raw hraw name hname hirregular hmem
    have hlower := (h.upper_eq_iff hmem hraw hname).1 rfl
    obtain ⟨_, _, hnot⟩ := sources_facts _ hmem
    rw [Line.isIrregularHead, hlower] at hirregular
    rw [Line.isIrregularHead, hirregular] at hnot
    cases hnot
  have hcollected := get_collect ht h.whole hregular .none []
  refine hcollected.trans ?_
  -- a head is looked up in upper case by one reading and in lower case by the other
  have hfilter : (Grammar.rulesOf .none lines).filter (fun rule => Text.upper rule.1 == t)
      = (Grammar.rulesOf .none lines).filter fun rule => likeHead t rule.1 := by
    apply List.filter_congr
    intro rule hrule
    obtain ⟨_, hsec | ⟨raw, hraw, hname⟩⟩ := Grammar.of_mem_rulesOf hrule
    · cases hsec
    · have hiff := h.upper_eq_iff ht hraw hname
      rw [likeHead, Bool.eq_iff_iff, beq_iff_eq, beq_iff_eq, hiff]
  rw [entriesOf, entriesOf, hfilter]
  rfl

/-- The phrases of a head in a grammar that the lines were loaded into are the base words that are
collected from them. -/
theorem phrases_growAll (h : Straight lines) (ht : t ∈ sources) {g : Grammar}
    (hproductions : g.productions = #[]) (hkeys : g.keys = ∅) (hbyHead : g.byHead = ∅) :
    phrases (g.growAll (Grammar.rulesOf .none lines)) t = (collect sources none [] lines).get t := by
  have hcollected := h.get_collect_eq ht
  have hverbatim := h.verbatim t ht
  have hdistinct := h.distinct t ht
  rw [hcollected] at hverbatim hdistinct
  have hcoherent := Grammar.coherent_of_isEmpty hproductions hbyHead
  have hnone : (g.rulesFor t).map (·.steps) = [].map stepsOf := by
    rw [hcoherent.rulesFor_eq, hproductions]
    rfl
  have hne : ∀ entry ∈ entriesOf (likeHead t) (Grammar.rulesOf .none lines), entry ≠ "" := by
    intro entry hentry
    obtain ⟨rule, hrule, rfl⟩ := List.mem_map.1 hentry
    exact (Grammar.of_mem_rulesOf (List.mem_filter.1 hrule).1).1
  -- the grammar begins without rules, so all that the head has comes from these lines
  have hsteps := steps_growAll hcoherent (Grammar.tidy_of_isEmpty hproductions hkeys) hnone
    (fun entry hentry => ⟨hverbatim entry hentry, hne entry hentry⟩) hdistinct
  rw [hcollected]
  exact map_phrase_filter_isPhrase hsteps hverbatim

end Straight

/-- The forms of a lexicon file are the same whether its base words are collected from its lines or taken
from a new grammar that it is loaded into, and so are the problems, if the entries stand for themselves.
The path has an extension, and is handed over as it is or in normal form. -/
theorem deriveFile_eq_deriveLoaded {files : Files} {path text : String} {route : Route}
    (hextension : (Path.ofString path).extension ≠ "")
    (hroute : route = .ofString path ∨ route = .ofPath (Path.ofString path))
    (hread : files.read route = .ok (.text text)) (hstraight : Straight (Text.lines text))
    (m : Irregulars) (irregulars : Option Irregulars) (dictation maxAlerts : Int) (progress : Bool) :
    let loaded := ({ dictation, maxAlerts } : Grammar).load irregulars files path
    loaded.result = .ok true
      ∧ (deriveFile m files route false progress).result
        = .ok (deriveLoaded m loaded.state.1).1 := by
  intro loaded
  have hpath : Grammar.filePath path = .ok (Path.ofString path) := by
    rw [Grammar.filePath, if_neg (by simpa using hextension)]
  have hparts : (Path.ofString path).parts ≠ [] :=
    fun hnil => hextension (Grammar.extension_of_parts_eq_nil hnil)
  have hnormal : files.read (.ofPath (Path.ofString path)) = .ok (.text text) := by
    rcases hroute with rfl | rfl
    · exact Files.read_ofPath hparts hread
    · exact hread
  have hlines : (Content.text text).lines = .ok (Text.lines text) := rfl
  -- the grammar is the new one with the rules of the file
  obtain ⟨hopened, hgrammar⟩ := @Grammar.load_of_forall_not_include _ { dictation, maxAlerts }
    irregulars (.still files) _ _ _ hpath hnormal hlines hstraight.whole
  have hbases : ∀ t ∈ sources,
      (collect sources none [] (Text.lines text)).get t = (basesOf loaded.state.1).get t := by
    intro t ht
    rw [get_basesOf _ ht, hgrammar]
    exact (hstraight.phrases_growAll ht rfl rfl rfl).symm
  have hcollected : readSections files route sources
      = .ok (collect sources none [] (Text.lines text)) := by
    have hupper : sources.map Text.upper = sources :=
      (List.map_congr_left fun t ht => (sources_facts t ht).1).trans (List.map_id _)
    rw [readSections, hread, hupper]
    rfl
  refine ⟨hopened, ?_⟩
  rw [deriveFile, prepare, if_neg (by decide)]
  simp only [hcollected]
  rw [deriveLoaded, derive_congr hbases m false progress false]

/-- The lines of a lexicon with a head in two spellings, a comment, a section of irregular forms and a
rule that is no entry. -/
def kennelLines : List String :=
  ["// kennel", "=[AKO]", "  hot dog ; twice", "=[xxx]", "  dog * npl = dogz", "=[TOP]",
    "  walk the (big) <AKO>", "=[ako]", "  cat", "=<ACT>", "  walk"]

theorem kennel_unbroken : ∀ l ∈ kennelLines, '\n' ∉ l.toList ∧ '\r' ∉ l.toList := by
  decide +kernel

/-- The lexicon as a file. -/
def kennel : Files :=
  { entries := [(["kennel.sgm"], .text (String.join (kennelLines.map (· ++ "\n"))))] }

/-- Both readings of the sample lexicon give the same forms. -/
theorem deriveFile_eq_deriveLoaded_kennel :
    (Path.ofString "./kennel.sgm").extension ≠ ""
      ∧ kennel.read (.ofString "./kennel.sgm")
        = .ok (.text (String.join (kennelLines.map (· ++ "\n"))))
      ∧ Straight (Text.lines (String.join (kennelLines.map (· ++ "\n"))))
      ∧ (collect sources none [] kennelLines).get "AKO" = ["hot dog", "cat"]
      ∧ (let loaded := ({ dictation := 5, maxAlerts := 10 } : Grammar).load (some {}) kennel
          "./kennel.sgm"
        loaded.result = .ok true
          ∧ (deriveFile {} kennel (.ofString "./kennel.sgm") false false).result
            = .ok (deriveLoaded {} loaded.state.1).1) := by
  have hextension : (Path.ofString "./kennel.sgm").extension ≠ "" := by decide
  have hread : kennel.read (.ofString "./kennel.sgm")
      = .ok (.text (String.join (kennelLines.map (· ++ "\n")))) := by
    rfl
  have hstraight : Straight kennelLines := by
    have hbasic : kennelLines.all fun raw => (Line.header? (Line.clean raw)).all
        fun name => name.toList.all (·.toNat < 128) := by
      decide +kernel
    have hbasic : ∀ raw ∈ kennelLines, ∀ name, Line.header? (Line.clean raw) = some name →
        ∀ c ∈ name.toList, c.toNat < 128 := by
      simpa [Option.all_eq_true] using hbasic
    exact ⟨by decide +kernel, hbasic, by decide +kernel, by decide +kernel⟩
  rw [← Text.lines_join kennel_unbroken] at hstraight
  exact ⟨hextension, hread, hstraight, by decide +kernel,
    deriveFile_eq_deriveLoaded hextension (.inl rfl) hread hstraight {} (some {}) 5 10 false⟩

end Lexicon

end Utterance
