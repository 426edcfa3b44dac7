import Mathlib.Data.List.Basic
import Mathlib.Data.List.Induction
import Utterance.Proofs.Grammar.Reading

/-!
# Grammars that can be built

Every grammar comes from an empty one by loading, teaching, retracting and switching rules. However
it was built, its index of heads and its numbering agree with its productions, and no production is
empty. This agreement is all that parsing relies on.
-/

namespace Utterance.Grammar

/-- The grammars that the operations on grammars lead to. -/
inductive Built : Grammar → Prop where
  | empty (dictation maxAlerts : Int) : Built { dictation, maxAlerts }
  | load {g : Grammar} (built : Built g) (irregulars : Option Irregulars) (view : Files.View)
      (path : String) : Built (g.load irregulars view path).state.1
  | expand {g : Grammar} (built : Built g) (head line whence : String) :
      Built (g.expand head line whence).grammar
  | extend {g : Grammar} (built : Built g) (head expansion : String) :
      Built (g.extend head expansion).grammar
  | retract {g : Grammar} (built : Built g) (head expansion : String) :
      Built (g.retract head expansion).grammar
  | clear {g : Grammar} (built : Built g) : Built g.clear
  | setStatus {g : Grammar} (built : Built g) (head : Option String) (status : Status) :
      Built (g.setStatus head status).1
  | setStatusNumber {g : Grammar} (built : Built g) (head : Option String) (n : Int) :
      Built (g.setStatusNumber head n).state
  | enable {g : Grammar} (built : Built g) (head : Option String) : Built (g.enable head).1
  | disable {g : Grammar} (built : Built g) (head : Option String) : Built (g.disable head).1

/-- The grammar with a status chosen for each production by its position. -/
def withStatuses (g : Grammar) (status : Nat → Status) : Grammar :=
  { g with productions := g.productions.map fun p => { p with status := status p.id } }

/-! ## Coherence -/

/-- Numbering and index agree with the productions, and every production has a step. -/
structure Coherent (g : Grammar) : Prop where
  id_eq : ∀ {i : Nat} {p : Production}, g.productions[i]? = some p → p.id = i
  steps_ne_nil : ∀ {i : Nat} {p : Production}, g.productions[i]? = some p → p.steps ≠ []
  byHead_eq : ∀ name : String, (g.byHead.getD name #[]).toList =
    (List.range g.productions.size).filter fun i =>
      (g.productions[i]?).any fun p => Text.lower p.head == name

/-- A coherent grammar finds exactly the productions of a head. -/
theorem Coherent.mem_rulesFor {g : Grammar} (h : g.Coherent) {head : String} {p : Production} :
    p ∈ g.rulesFor head
      ↔ g.productions[p.id]? = some p ∧ Text.lower p.head = Text.lower head := by
  simp only [rulesFor, h.byHead_eq, List.mem_filterMap, List.mem_filter, List.mem_range]
  constructor
  · rintro ⟨i, ⟨_, hany⟩, hi⟩
    rw [hi] at hany
    -- a production is found under its own number
    rw [h.id_eq hi]
    exact ⟨hi, by simpa using hany⟩
  · rintro ⟨hi, hhead⟩
    refine ⟨p.id, ⟨?_, ?_⟩, hi⟩
    · exact (Array.getElem?_eq_some_iff.1 hi).1
    · simp [hi, hhead]

/-- The elements of a list are those at its positions. -/
theorem filterMap_range_getElem? {α : Type} (xs : List α) :
    (List.range xs.length).filterMap (fun i => xs[i]?) = xs := by
  induction xs using List.reverseRecOn with
  | nil => rfl
  | append_singleton xs x ih =>
    rw [List.length_append, List.length_singleton, List.range_succ, List.filterMap_append,
      List.filterMap_congr (g := fun i => xs[i]?), ih]
    · simp
    · intro i hi
      exact List.getElem?_append_left (List.mem_range.1 hi)

/-- The productions of a head come in the order of the grammar. -/
theorem Coherent.rulesFor_eq {g : Grammar} (h : g.Coherent) (head : String) :
    g.rulesFor head
      = g.productions.toList.filter fun p => Text.lower p.head == Text.lower head := by
  -- the index has the numbers of the head, and the number of a production is its place
  have hall : (List.range g.productions.size).filterMap (fun i => g.productions[i]?)
      = g.productions.toList := by
    simp only [← Array.length_toList, ← Array.getElem?_toList]
    exact filterMap_range_getElem? _
  rw [rulesFor, h.byHead_eq, ← hall, List.filterMap_filter, List.filter_filterMap]
  apply List.filterMap_congr
  intro i _
  cases g.productions[i]? with
  | none => rfl
  | some p => simp [Option.filter]

/-- A grammar without productions and without an index is coherent. -/
theorem coherent_of_isEmpty {g : Grammar} (hp : g.productions = #[]) (hb : g.byHead = ∅) :
    g.Coherent where
  id_eq h := by simp [hp] at h
  steps_ne_nil h := by simp [hp] at h
  byHead_eq name := by simp [hp, hb]

/-- A change of the productions that leaves number, head and steps alone keeps coherence. The index
has numbers only, so it need not change with them. -/
theorem Coherent.map {g : Grammar} (h : g.Coherent) {f : Production → Production}
    (hid : ∀ p, (f p).id = p.id) (hhead : ∀ p, (f p).head = p.head)
    (hsteps : ∀ p, (f p).steps = p.steps) :
    Coherent { g with productions := g.productions.map f } where
  id_eq hi := by
    rw [Array.getElem?_map, Option.map_eq_some_iff] at hi
    obtain ⟨p, hp, rfl⟩ := hi
    rw [hid, h.id_eq hp]
  steps_ne_nil hi := by
    rw [Array.getElem?_map, Option.map_eq_some_iff] at hi
    obtain ⟨p, hp, rfl⟩ := hi
    rw [hsteps]
    exact h.steps_ne_nil hp
  byHead_eq name := by
    rw [h.byHead_eq, Array.size_map]
    apply List.filter_congr
    intro i _
    rw [Array.getElem?_map]
    cases g.productions[i]? with
    | none => rfl
    | some p => simp [hhead]

theorem Coherent.withStatuses {g : Grammar} (h : g.Coherent) (status : Nat → Status) :
    (g.withStatuses status).Coherent :=
  h.map (fun _ => rfl) (fun _ => rfl) fun _ => rfl

theorem Coherent.setStatus {g : Grammar} (h : g.Coherent) (head : Option String) (status : Status) :
    (g.setStatus head status).1.Coherent := by
  apply h.map <;> (intro p; split <;> rfl)

/-- A production with a step keeps a grammar coherent. It gets the next number, and its position is
put at the end of the entry of its head. -/
theorem Coherent.push {g : Grammar} (h : g.Coherent) (head : String) {steps : List Step}
    (status : Status) (hsteps : steps ≠ []) : (g.push head steps status).Coherent where
  id_eq {i p} hi := by
    simp only [Grammar.push, Array.getElem?_push] at hi
    split at hi
    · rename_i hlast
      cases hi
      exact hlast.symm
    · exact h.id_eq hi
  steps_ne_nil {i p} hi := by
    simp only [Grammar.push, Array.getElem?_push] at hi
    split at hi
    · cases hi
      exact hsteps
    · exact h.steps_ne_nil hi
  byHead_eq name := by
    -- the positions before the new one are judged as before
    have hold : (List.range g.productions.size).filter (fun i =>
        ((g.push head steps status).productions[i]?).any fun p => Text.lower p.head == name)
        = (g.byHead.getD name #[]).toList := by
      rw [h.byHead_eq]
      apply List.filter_congr
      intro i hi
      have hne : i ≠ g.productions.size := Nat.ne_of_lt (List.mem_range.1 hi)
      simp only [Grammar.push, Array.getElem?_push, if_neg hne]
    have hnew : ((g.push head steps status).productions[g.productions.size]?)
        = some ⟨g.productions.size, head, steps, status⟩ := by
      simp [Grammar.push]
    have hsize : (g.push head steps status).productions.size = g.productions.size + 1 := by
      simp [Grammar.push]
    rw [hsize, List.range_succ, List.filter_append, hold, List.filter_cons, List.filter_nil, hnew]
    simp only [Grammar.push, Std.HashMap.getD_insert, Option.any_some]
    -- the new production is listed last, and under its own head only
    by_cases hname : Text.lower head = name
    · simp [hname]
    · simp [hname]

/-- Remembering an attention phrase keeps a grammar coherent. -/
theorem Coherent.remember {g : Grammar} (h : g.Coherent) (head : String) (steps : List Step) :
    (g.remember head steps).Coherent := by
  unfold Grammar.remember
  split
  · exact ⟨h.id_eq, h.steps_ne_nil, h.byHead_eq⟩
  · exact h

/-- What holds of a grammar without productions and survives the adding of some holds of the grammar
that has just these. -/
theorem withProductions_preserves {P : Grammar → Prop} {g : Grammar} {ps : List Production}
    (hpush : ∀ (g : Grammar), ∀ p ∈ ps, P g → P (g.push p.head p.steps p.status))
    (hempty : P { g with productions := #[], keys := ∅, byHead := ∅ }) : P (g.withProductions ps) :=
  List.foldlRecOn ps _ hempty fun g hg p hp => hpush g p hp hg

/-- A grammar that is given productions with steps is coherent, since they are numbered and indexed
anew. -/
theorem Coherent.withProductions {g : Grammar} (ps : List Production)
    (hsteps : ∀ p ∈ ps, p.steps ≠ []) : (g.withProductions ps).Coherent :=
  withProductions_preserves (fun _ p hp hg => hg.push p.head p.status (hsteps p hp))
    (coherent_of_isEmpty rfl rfl)

/-! ## What adding and loading preserve -/

/-- A warning about a head does not touch the grammar. -/
theorem Loading.grammar_checkHead (s : Loading) (name whence : String) :
    (s.checkHead name whence).grammar = s.grammar := by
  unfold checkHead
  simp only
  split
  · rfl
  · split <;> rfl

/-- An irregular form does not touch the productions of the grammar. -/
theorem Loading.grammar_addIrregular (s : Loading) (line whence : String) :
    (s.addIrregular line whence).grammar = s.grammar := by
  unfold addIrregular
  split <;> rfl

section Preservation

variable {P : Grammar → Prop}

/-- A line that cannot be read, is empty or is there already adds nothing. -/
theorem addPlain_preserves {head : String}
    (hadd : ∀ (line : String) (g : Grammar) (steps : List Step), P g →
      readSteps head line = .ok steps → steps ≠ [] → g.hasRule head steps = false →
      P ((g.remember head steps).push head steps .active))
    {s : Growth} (hs : P s.grammar) (place line : String) : P (s.addPlain head place line).grammar := by
  unfold Growth.addPlain
  split
  · exact hs
  · rename_i steps hread
    split
    · exact hs
    · rename_i hnew
      simp only [Bool.or_eq_true, not_or, Bool.not_eq_true, List.isEmpty_eq_false_iff] at hnew
      exact hadd line _ _ hs hread hnew.1 hnew.2

/-- Whatever survives the adding of one readable production survives the adding of an expansion. An
expansion is nothing but its variants, added one by one, and those that cannot be read, are empty or
are there already leave the grammar as it is. -/
theorem expand_preserves {head : String}
    (hadd : ∀ (line : String) (g : Grammar) (steps : List Step), P g →
      readSteps head line = .ok steps → steps ≠ [] → g.hasRule head steps = false →
      P ((g.remember head steps).push head steps .active))
    {g : Grammar} (hg : P g) (line whence : String) : P (g.expand head line whence).grammar := by
  unfold expand
  simp only
  split
  · exact hg
  · exact List.foldlRecOn (motive := fun s : Growth => P s.grammar) _ _ hg
      fun s hs line _ => addPlain_preserves hadd hs _ line

/-- What survives an expansion survives teaching, which is an expansion with its own place. -/
theorem extend_preserves {head expansion : String} {g : Grammar}
    (hexpand : P (g.expand head expansion ("extend " ++ head)).grammar) :
    P (g.extend head expansion).grammar := by
  unfold extend
  simp only
  split <;> exact hexpand

/-- A line that includes no file preserves what adding an expansion preserves. It is empty, or opens
a section, or is an entry of the section that is open. -/
theorem takeLine_preserves
    (hexpand : ∀ (g : Grammar) (head line whence : String), P g → P (g.expand head line whence).grammar)
    {s : Loading} (hs : P s.grammar) (path : Path) (sec : Section) (number : Nat) (line : String) :
    P (s.takeLine path sec number line).grammar := by
  unfold Loading.takeLine
  simp only
  split
  · exact hs
  · split
    · split
      · exact hs
      · split
        · exact hs
        · rw [Loading.grammar_checkHead]
          exact hs
    · split
      · exact hs
      -- of the lines of a section only an entry of a head changes the grammar
      · cases sec with
        | none => exact hs
        | rules head => exact hexpand _ _ _ _ hs
        | irregular =>
          rw [Loading.grammar_addIrregular]
          exact hs

/-- Reading lines preserves what adding an expansion preserves, if the files they name do. The
induction is on the lines, for any section and any state of the reading. -/
theorem loadLines_preserves {nested : Path → Loading → Loading × Except Fault Bool} {path : Path}
    (hnested : ∀ p s, P s.grammar → P (nested p s).1.grammar)
    (hexpand : ∀ (g : Grammar) (head line whence : String), P g → P (g.expand head line whence).grammar)
    (lines : List String) (sec : Section) (number : Nat) (s : Loading) (hs : P s.grammar) :
    P (loadLines nested path sec number lines s).1.grammar := by
  induction lines generalizing sec number s with
  | nil => exact hs
  | cons raw rest ih =>
    cases hincluded : included? path (Line.clean raw) with
    | none =>
      rw [loadLines_cons_of_none hincluded]
      exact ih _ _ _ (takeLine_preserves hexpand hs path sec number (Line.clean raw))
    | some extra =>
      rw [loadLines_cons_of_some hincluded]
      have hextra := hnested extra s hs
      rcases hinner : nested extra s with ⟨inner, fault | opened⟩
      all_goals rw [hinner] at hextra
      · exact hextra
      -- whether the nested file could be opened is only noted
      · cases opened with
        | true => exact ih _ _ _ hextra
        | false => exact ih _ _ _ hextra

/-- Reading a file preserves what adding an expansion preserves. The induction is on the number of
stored files that are not being read, which a nested file makes smaller. -/
theorem loadFile_preserves
    (hexpand : ∀ (g : Grammar) (head line whence : String), P g → P (g.expand head line whence).grammar)
    (view : Files.View) (stack : List (List String)) (path : Path) {s : Loading} (hs : P s.grammar) :
    P (loadFile view stack path s).1.grammar := by
  -- a nested file leaves fewer stored files that are not being read
  induction hn : unopened view.places stack using Nat.strongRecOn generalizing stack path s with
  | _ n ih =>
    unfold loadFile
    simp only
    split
    · exact hs
    · rename_i hcycle
      split
      · exact hs
      · exact hs
      · rename_i hread
        split
        · exact hs
        · refine loadLines_preserves (fun p s hs => ih _ ?_ _ p hs rfl) hexpand _ _ _ _ hs
          rw [← hn]
          exact unopened_cons_lt (Files.View.resolve_mem_places hread) (by simpa using hcycle)

/-- Loading preserves what adding an expansion and naming the first file preserve. -/
theorem load_preserves
    (hexpand : ∀ (g : Grammar) (head line whence : String), P g → P (g.expand head line whence).grammar)
    (hpath : ∀ (g : Grammar) (path : Option Path), P g → P { g with path })
    {g : Grammar} (hg : P g) (irregulars : Option Irregulars) (view : Files.View) (path : String) :
    P (g.load irregulars view path).state.1 := by
  unfold load
  split
  · exact hg
  · exact loadFile_preserves hexpand _ _ _ (hpath g _ hg)

/-- What holds of empty grammars and survives the naming of the first file, adding, retracting and a
change of statuses holds of every grammar that can be built. -/
theorem Built.of_operations (hempty : ∀ dictation maxAlerts, P { dictation, maxAlerts })
    (hpath : ∀ (g : Grammar) (path : Option Path), P g → P { g with path })
    (hexpand : ∀ (g : Grammar) (head line whence : String), P g → P (g.expand head line whence).grammar)
    (hretract : ∀ (g : Grammar) (head expansion : String), P g → P (g.retract head expansion).grammar)
    (hstatus : ∀ (g : Grammar) (head : Option String) (status : Status), P g →
      P (g.setStatus head status).1)
    {g : Grammar} (h : g.Built) : P g := by
  induction h with
  | empty dictation maxAlerts => exact hempty dictation maxAlerts
  | load _ irregulars view path ih => exact load_preserves hexpand hpath ih irregulars view path
  | expand _ head line whence ih => exact hexpand _ head line whence ih
  | extend _ head expansion ih => exact extend_preserves (hexpand _ head expansion _ ih)
  | retract _ head expansion ih => exact hretract _ head expansion ih
  | clear _ _ => exact hempty _ _
  | setStatus _ head status ih => exact hstatus _ head status ih
  | setStatusNumber _ head n ih =>
    -- a number that names no status changes nothing
    unfold Grammar.setStatusNumber
    split
    · exact hstatus _ head _ ih
    · split <;> exact ih
  | enable _ head ih => exact hstatus _ head .top ih
  | disable _ head ih => exact hstatus _ head .active ih

end Preservation

/-- A file that can be read is read line by line, with its own place on the stack of those that are
being read. -/
theorem loadFile_of_read {view : Files.View} {path : Path} {s : Loading} {content : Content}
    {lines : List String} (hread : (view.after s.notes).read (.ofPath path) = .ok content)
    (hlines : content.lines = .ok lines) :
    loadFile view [] path s
      = loadLines (fun p s => loadFile view [(Route.ofPath path).resolve view.cwd] p s) path .none 1
        lines (s.note .loading
          ("Loading grammar " ++ path.text ++ " (" ++ toString lines.length ++ " lines)")) := by
  rw [loadFile]
  rw [dif_neg (show
      ¬([] : List (List String)).contains ((Route.ofPath path).resolve view.cwd) = true by simp)]
  split
  · rename_i h
    rw [hread] at h
    cases h
  · rename_i h
    rw [hread] at h
    cases h
  · rename_i h
    rw [hread] at h
    cases h
    rw [hlines]

/-! ## Every grammar that can be built is coherent -/

/-- An expansion keeps a grammar coherent. -/
theorem Coherent.expand {g : Grammar} (h : g.Coherent) (head line whence : String) :
    (g.expand head line whence).grammar.Coherent := by
  refine expand_preserves (fun _ g steps hg _ hne _ => ?_) h line whence
  exact (hg.remember head steps).push head .active hne

/-- A retraction keeps a grammar coherent. -/
theorem Coherent.retract {g : Grammar} (h : g.Coherent) (head expansion : String) :
    (g.retract head expansion).grammar.Coherent := by
  unfold Grammar.retract
  simp only
  split
  · exact h
  -- productions are numbered anew when some are taken out, so any choice of them is coherent
  · have hkept : ∀ keep : Production → Bool,
        (g.withProductions (g.productions.toList.filter keep)).Coherent := by
      intro keep
      refine Coherent.withProductions _ fun p hp => ?_
      obtain ⟨i, hi⟩ := List.getElem?_of_mem (List.mem_filter.1 hp).1
      rw [Array.getElem?_toList] at hi
      exact h.steps_ne_nil hi
    split
    · exact ⟨(hkept _).id_eq, (hkept _).steps_ne_nil, (hkept _).byHead_eq⟩
    · exact hkept _

/-- However a grammar was built, its numbering and its index agree with its productions. -/
theorem Built.coherent {g : Grammar} (h : g.Built) : g.Coherent := by
  refine h.of_operations (fun _ _ => coherent_of_isEmpty rfl rfl) ?_ ?_ ?_ ?_
  · exact fun g path hg => ⟨hg.id_eq, hg.steps_ne_nil, hg.byHead_eq⟩
  · exact fun g head line whence hg => hg.expand head line whence
  · exact fun g head expansion hg => hg.retract head expansion
  · exact fun g head status hg => hg.setStatus head status

/-! ## Heads that may start a sentence -/

/-- Collecting what was not seen yet collects everything. -/
theorem mem_foldl_seen {xs seen : List String} {x : String} :
    x ∈ xs.foldl (fun seen x => if seen.contains x then seen else x :: seen) seen
      ↔ x ∈ seen ∨ x ∈ xs := by
  induction xs generalizing seen with
  | nil => simp
  | cons y ys ih =>
    rw [List.foldl_cons, ih]
    split
    · rename_i hseen
      rw [List.contains_iff_mem] at hseen
      grind
    · grind

theorem mem_distinct {xs : List String} {x : String} : x ∈ distinct xs ↔ x ∈ xs := by
  rw [distinct, List.mem_reverse, mem_foldl_seen]
  simp

/-- The head of a production that may start a sentence is among the heads that may. -/
theorem Coherent.head_mem_topHeads {g : Grammar} (h : g.Coherent) {i : Nat} {p : Production}
    (hp : g.productions[i]? = some p) (htop : p.status = .top) : p.head ∈ g.topHeads := by
  have hi := h.id_eq hp
  subst hi
  have hmem : p ∈ g.productions.toList := by
    rw [Array.mem_toList_iff]
    exact Array.mem_of_getElem? hp
  simp only [topHeads, heads, List.mem_filter, mem_distinct, List.mem_map, List.any_eq_true]
  refine ⟨⟨p, hmem, rfl⟩, p, h.mem_rulesFor.2 ⟨hp, rfl⟩, ?_⟩
  simp [htop]

end Utterance.Grammar
