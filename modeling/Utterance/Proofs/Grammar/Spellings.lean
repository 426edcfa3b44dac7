import Mathlib.Data.List.Nodup
import Mathlib.Data.List.Perm.Basic
import Utterance.Proofs.Grammar.Dump
import Utterance.Proofs.Grammar.Retraction

/-!
# Rules that are written once

A grammar file has a section for every spelling of a head, and each section has the rules of all
spellings. So a rule is written as often as its head is spelled differently in the grammar: once, under
its own head, if the grammar has one spelling of it only.
-/

namespace Utterance

/-! ## Selections -/

section Selections

variable {α κ : Type} {xs : List α}

/-- Giving an element for some of the keys gives it as often as there are such keys. -/
theorem flatMap_ite_singleton (p : κ → Bool) (keys : List κ) (x : α) :
    (keys.flatMap fun k => if p k then [x] else []) = (keys.filter p).map fun _ => x := by
  induction keys with
  | nil => rfl
  | cons k keys ih =>
    rw [List.flatMap_cons, ih, List.filter_cons]
    split <;> rfl

/-- Selections of a list one after the other are its elements, each as often as it is selected. The
induction is on the list: its first element is taken out of every selection that has it. -/
theorem flatMap_filter_perm (r : κ → α → Bool) (keys : List κ) (xs : List α) :
    (keys.flatMap fun k => xs.filter (r k)).Perm
      (xs.flatMap fun x => (keys.filter (r · x)).map fun _ => x) := by
  induction xs with
  | nil => simp
  | cons x xs ih =>
    have hsplit : (keys.flatMap fun k => (x :: xs).filter (r k))
        = keys.flatMap fun k => (if r k x then [x] else []) ++ xs.filter (r k) := by
      congr 1
      funext k
      rw [List.filter_cons]
      split <;> rfl
    rw [hsplit, List.flatMap_cons, ← flatMap_ite_singleton (r · x)]
    exact (List.flatMap_append_perm keys _ _).symm.trans (ih.append_left _)

/-- If every element gives something, together they give at least as many as they are. -/
theorem length_le_length_flatMap {f : α → List κ} (h : ∀ x ∈ xs, f x ≠ []) :
    xs.length ≤ (xs.flatMap f).length := by
  induction xs with
  | nil => exact Nat.zero_le _
  | cons x xs ih =>
    obtain ⟨hx, hxs⟩ := List.forall_mem_cons.1 h
    have hfirst := List.length_pos_iff.2 hx
    have hrest := ih hxs
    rw [List.flatMap_cons, List.length_append, List.length_cons]
    omega

/-- If every element gives something, and together they give no more than they are, each gives one. -/
theorem length_eq_one_of_length_flatMap_le {f : α → List κ} (h : ∀ x ∈ xs, f x ≠ [])
    (hlength : (xs.flatMap f).length ≤ xs.length) : ∀ x ∈ xs, (f x).length = 1 := by
  induction xs with
  | nil => simp
  | cons x xs ih =>
    obtain ⟨hx, hxs⟩ := List.forall_mem_cons.1 h
    have hfirst := List.length_pos_iff.2 hx
    have hrest := length_le_length_flatMap hxs
    rw [List.flatMap_cons, List.length_append, List.length_cons] at hlength
    exact List.forall_mem_cons.2 ⟨by omega, ih hxs (by omega)⟩

end Selections

namespace Grammar

variable {g : Grammar}

/-- Leaving out repetitions leaves none. -/
theorem nodup_distinct (xs : List String) : (distinct xs).Nodup := by
  rw [distinct, List.nodup_reverse]
  refine List.foldlRecOn xs _ List.nodup_nil fun seen hseen x _ => ?_
  split
  · exact hseen
  · rename_i hx
    rw [List.contains_iff_mem] at hx
    exact List.nodup_cons.2 ⟨hx, hseen⟩

/-! ## Sections -/

/-- The usable productions of a head in any case. -/
def usableFor (g : Grammar) (head : String) : List Production :=
  g.usable.filter fun p => Text.lower p.head == Text.lower head

/-- Whether the head of every usable production has one spelling only. -/
def SpelledAlike (g : Grammar) : Prop :=
  ∀ p ∈ g.usable, ∀ q ∈ g.productions.toList, Text.lower q.head = Text.lower p.head → q.head = p.head

/-- The sections of a grammar are those of its heads as they are spelled, without empty ones. -/
theorem Coherent.groups_eq (h : g.Coherent) :
    g.groups = (g.heads.map fun head => (head, g.usableFor head)).filter (!·.2.isEmpty) := by
  have hrules : ∀ head, (g.rulesFor head).filter (fun p => p.status.isUsable) = g.usableFor head := by
    intro head
    rw [h.rulesFor_eq, usableFor, usable, List.filter_filter, List.filter_filter]
    exact List.filter_congr fun p _ => Bool.and_comm _ _
  rw [groups]
  simp only [hrules]

/-- The sections of a grammar: one for each spelling of a head that has usable productions, with those
of all spellings. -/
theorem Coherent.mem_groups_iff (h : g.Coherent) {head : String} {rules : List Production} :
    (head, rules) ∈ g.groups ↔ head ∈ g.heads ∧ rules = g.usableFor head ∧ rules ≠ [] := by
  rw [h.groups_eq, List.mem_filter, List.mem_map]
  simp only [Prod.mk.injEq, Bool.not_eq_true', List.isEmpty_eq_false_iff]
  constructor
  · rintro ⟨⟨_, hhead, rfl, rfl⟩, hne⟩
    exact ⟨hhead, rfl, hne⟩
  · rintro ⟨hhead, rfl, hne⟩
    exact ⟨⟨head, hhead, rfl, rfl⟩, hne⟩

/-- Together the sections list the usable productions of each spelling of a head. A head whose
productions are all disabled has no section, and would have listed nothing. -/
theorem Coherent.flatMap_groups (h : g.Coherent) :
    g.groups.flatMap (·.2) = g.heads.flatMap g.usableFor := by
  rw [h.groups_eq]
  induction g.heads with
  | nil => rfl
  | cons head heads ih =>
    rw [List.map_cons, List.filter_cons, List.flatMap_cons, ← ih]
    split
    · rfl
    · rename_i hempty
      have hnone : g.usableFor head = [] := by simpa using hempty
      rw [hnone, List.nil_append]

/-- No two sections have one heading. -/
theorem Coherent.nodup_headings (h : g.Coherent) : (g.groups.map (·.1)).Nodup := by
  have hsub : (g.groups.map (·.1)).Sublist g.heads := by
    rw [h.groups_eq]
    have hfilter := (List.filter_sublist (p := (!·.2.isEmpty))
      (l := g.heads.map fun head => (head, g.usableFor head))).map Prod.fst
    simpa [Function.comp_def] using hfilter
  exact (nodup_distinct _).sublist hsub

/-- The spellings of the head of a production. -/
def spellings (g : Grammar) (p : Production) : List String :=
  g.heads.filter fun head => Text.lower p.head == Text.lower head

theorem head_mem_spellings {p : Production} (hp : p ∈ g.productions.toList) : p.head ∈ g.spellings p :=
  List.mem_filter.2 ⟨mem_distinct.2 (List.mem_map_of_mem hp), by simp⟩

/-- A production stands in as many sections as its head has spellings. -/
theorem Coherent.flatMap_groups_perm (h : g.Coherent) :
    (g.groups.flatMap (·.2)).Perm (g.usable.flatMap fun p => (g.spellings p).map fun _ => p) := by
  have hperm := flatMap_filter_perm (fun (head : String) (p : Production) =>
    Text.lower p.head == Text.lower head) g.heads g.usable
  rw [h.flatMap_groups]
  unfold usableFor spellings
  exact hperm

/-- Every production stands in one section exactly if their heads are spelled alike. A head that has
another spelling somewhere in the grammar stands below both of them. -/
theorem spelledAlike_iff : g.SpelledAlike ↔ ∀ p ∈ g.usable, g.spellings p = [p.head] := by
  constructor
  · intro halike p hp
    have hmem : p ∈ g.productions.toList := (List.mem_filter.1 hp).1
    have hall : ∀ head ∈ g.spellings p, head = p.head := by
      intro head hhead
      obtain ⟨hhead, hlower⟩ := List.mem_filter.1 hhead
      obtain ⟨q, hq, rfl⟩ := List.mem_map.1 (mem_distinct.1 hhead)
      exact halike p hp q hq (by simpa using (beq_iff_eq.1 hlower).symm)
    -- the spellings are listed without repetition, and all of them are the head itself
    have hnodup : (g.spellings p).Nodup := (nodup_distinct _).filter _
    refine List.perm_singleton.1 ((List.perm_ext_iff_of_nodup hnodup (List.nodup_singleton _)).2 ?_)
    intro head
    rw [List.mem_singleton]
    exact ⟨hall head, fun heq => heq ▸ head_mem_spellings hmem⟩
  · intro hone p hp q hq hlower
    have hhead : q.head ∈ g.spellings p :=
      List.mem_filter.2 ⟨mem_distinct.2 (List.mem_map_of_mem hq), by simp [hlower]⟩
    rw [hone p hp] at hhead
    exact List.mem_singleton.1 hhead

/-! ## Files -/

/-- Sections that list productions once: no heading comes twice, and every production stands in one
section, below its own head. -/
structure ListsOnce (groups : List (String × List Production)) (ps : List Production) : Prop where
  headings : (groups.map (·.1)).Nodup
  once : (groups.flatMap (·.2)).Perm ps
  below : ∀ group ∈ groups, ∀ p ∈ group.2, p.head = group.1

/-- The sections list every usable production once if heads are spelled alike. -/
theorem Coherent.listsOnce (h : g.Coherent) (halike : g.SpelledAlike) : ListsOnce g.groups g.usable where
  headings := h.nodup_headings
  once := by
    -- if heads are spelled alike, a production is listed under one spelling
    have hone : (g.usable.flatMap fun p => (g.spellings p).map fun _ => p) = g.usable := by
      rw [List.flatMap_congr (g := fun p => [p]) fun p hp => by rw [spelledAlike_iff.1 halike p hp]; rfl]
      exact List.flatMap_singleton' _
    rw [← hone]
    exact h.flatMap_groups_perm
  below := by
    rintro ⟨head, rules⟩ hgroup p hp
    obtain ⟨hhead, rfl, _⟩ := h.mem_groups_iff.1 hgroup
    obtain ⟨husable, hlower⟩ := List.mem_filter.1 hp
    obtain ⟨q, hq, rfl⟩ := List.mem_map.1 (mem_distinct.1 hhead)
    exact (halike p husable q hq (beq_iff_eq.1 hlower).symm).symm

/-- The sections have as many productions as there are usable ones exactly if each is in one section
only. Each is in one section at least, that of its own head. -/
theorem Coherent.length_groups_eq_iff (h : g.Coherent) :
    (g.groups.flatMap (·.2)).length = g.ruleCount ↔ g.SpelledAlike := by
  constructor
  · intro hlength
    rw [h.flatMap_groups_perm.length_eq, ruleCount] at hlength
    have hfound : ∀ p ∈ g.usable, p.head ∈ g.spellings p :=
      fun p hp => head_mem_spellings (List.mem_filter.1 hp).1
    have hsome : ∀ p ∈ g.usable, ((g.spellings p).map fun _ => p) ≠ [] := by
      intro p hp
      rw [ne_eq, List.map_eq_nil_iff]
      exact List.ne_nil_of_mem (hfound p hp)
    -- each production is listed at least once, so none can be listed twice
    have hone := length_eq_one_of_length_flatMap_le hsome hlength.le
    refine spelledAlike_iff.2 fun p hp => ?_
    have hone := hone p hp
    rw [List.length_map, List.length_eq_one_iff] at hone
    obtain ⟨head, hhead⟩ := hone
    have hfound := hfound p hp
    rw [hhead, List.mem_singleton] at hfound
    rw [hhead, hfound]
  · intro halike
    exact (h.listsOnce halike).once.length_eq

/-- An expansion stands on one line. -/
theorem Production.unbroken_expansion {p : Production} (h : Read p.head p.steps) :
    '\n' ∉ p.expansion.toList ∧ '\r' ∉ p.expansion.toList := by
  obtain ⟨_, _, hforms⟩ := h
  refine Production.expansion_induct (P := fun cs => '\n' ∉ cs ∧ '\r' ∉ cs) ?_ hforms.ne_nil
    fun step hstep => ?_
  · rintro xs ys ⟨hfeed, hreturn⟩ ⟨hfeed', hreturn'⟩
    simp [hfeed, hreturn, hfeed', hreturn']
  · have hword := (Step.isWord_text (hforms.isWord step hstep)).2
    exact ⟨fun hmem => absurd (hword _ hmem) (by decide), fun hmem => absurd (hword _ hmem) (by decide)⟩

/-- The text of sections is cut into their lines if no line break is in a head. -/
theorem lines_groupsText {groups : List (String × List Production)}
    (hheads : ∀ group ∈ groups, '\n' ∉ group.1.toList ∧ '\r' ∉ group.1.toList)
    (hread : ∀ group ∈ groups, ∀ p ∈ group.2, Read p.head p.steps) :
    Text.lines (groupsText groups) = groups.flatMap groupLines := by
  rw [groupsText_eq]
  refine Text.lines_join fun line hline => ?_
  obtain ⟨group, hgroup, hline⟩ := List.mem_flatMap.1 hline
  -- a section consists of its header, of one line for each production, and of an empty line
  rcases List.mem_cons.1 hline with rfl | hline
  · obtain ⟨hfeed, hreturn⟩ := hheads group hgroup
    simp [Line.opening, hfeed, hreturn]
  · rcases List.mem_append.1 hline with hline | hline
    · obtain ⟨p, hp, rfl⟩ := List.mem_map.1 hline
      obtain ⟨hfeed, hreturn⟩ := Production.unbroken_expansion (hread group hgroup p hp)
      simp [Production.line, hfeed, hreturn]
    · rw [List.mem_singleton.1 hline]
      decide

/-- A dump to a file that can be written tells how many lines of productions its sections have, and
leaves them in the file. -/
theorem dump_of_checkWritable {files : Files} {file : String}
    (h : files.checkWritable (.ofString file) = .ok ()) :
    (g.dump files file).result = .ok (some (g.groups.flatMap (·.2)).length)
      ∧ (g.dump files file).state.read (.ofString file) = .ok (.text (groupsText g.groups)) := by
  have hwrite : files.write (.ofString file) (groupsText g.groups)
      = .ok (files.insert ((Route.ofString file).resolve files.cwd) (.text (groupsText g.groups))) := by
    rw [Files.write, h]
    rfl
  obtain ⟨hstate, _⟩ := dump_of_write hwrite
  rw [hstate]
  refine ⟨?_, Files.read_of_write_same hwrite⟩
  rw [groupsText] at hwrite
  unfold dump
  simp only [hwrite]

/-- Whatever a grammar went through, a file that it is written to has a section for every spelling of a
head with usable rules, and in it the usable rules of all spellings; the result is the number of rules
in all sections. It is the number of usable rules exactly if their heads have one spelling each in the
grammar. Then every usable rule is written once, below its own head. -/
theorem dump_lists (hg : g.Built) (status : Nat → Status) {files : Files} {file : String}
    (hwritable : files.checkWritable (.ofString file) = .ok ()) :
    let store := g.withStatuses status
    let o := store.dump files file
    ∃ groups : List (String × List Production),
      o.result = .ok (some (groups.flatMap (·.2)).length)
      ∧ o.state.read (.ofString file) = .ok (.text (groupsText groups))
      ∧ ((∀ head ∈ store.heads, '\n' ∉ head.toList ∧ '\r' ∉ head.toList) →
        Text.lines (groupsText groups) = groups.flatMap groupLines)
      ∧ (groups.map (·.1)).Nodup
      ∧ (∀ head rules, (head, rules) ∈ groups
        ↔ head ∈ store.heads ∧ rules = store.usableFor head ∧ rules ≠ [])
      ∧ (o.result = .ok (some store.ruleCount) ↔ store.SpelledAlike)
      ∧ (store.SpelledAlike → ListsOnce groups store.usable) := by
  intro store o
  have hcoherent : store.Coherent := hg.coherent.withStatuses status
  obtain ⟨hresult, hread⟩ := dump_of_checkWritable (g := store) hwritable
  -- the number that is given is that of the productions in all sections
  have hcount : o.result = .ok (some store.ruleCount) ↔ store.SpelledAlike := by
    rw [hresult, Except.ok.injEq, Option.some.injEq]
    exact hcoherent.length_groups_eq_iff
  refine ⟨store.groups, hresult, hread, fun hheads => ?_, hcoherent.nodup_headings,
    fun _ _ => hcoherent.mem_groups_iff, hcount, hcoherent.listsOnce⟩
  apply lines_groupsText
  · rintro ⟨head, rules⟩ hgroup
    exact hheads head (hcoherent.mem_groups_iff.1 hgroup).1
  -- statuses do not matter to how a production was read
  · intro group hgroup p hp
    have husable := ((hcoherent.of_mem_groups hgroup).2 p hp).1
    obtain ⟨q, hq, rfl⟩ := List.mem_map.1 (Array.toList_map ▸ (List.mem_filter.1 husable).1)
    exact hg.read q hq

/-- A disabled rule is not written, and the other one stands below its head. -/
theorem dump_lists_trip :
    let errand := (expand { dictation := 5, maxAlerts := 10 } "errand" "GO #" "").grammar
    let store := (errand.expand "Trip" "[errand] home" "").grammar.withStatuses fun i =>
      if i = 0 then .disabled else .top
    Files.empty.checkWritable (.ofString "out.sgm") = .ok () ∧ store.SpelledAlike
      ∧ (store.dump .empty "out.sgm").result = .ok (some 1) := by
  intro errand store
  have hbuilt : errand.Built := (Built.empty 5 10).expand "errand" "GO #" ""
  have hforms : Forms "Trip" (Text.words "[errand] home") [⟨"errand", true⟩, ⟨"home", false⟩] :=
    forms_iff.2 ⟨by decide, by decide⟩
  have hrules : (errand.expand "Trip" "[errand] home" "").grammar.productions
      = #[⟨0, "errand", [⟨"GO", false⟩, ⟨"#", false⟩], .active⟩,
        ⟨1, "Trip", [⟨"errand", true⟩, ⟨"home", false⟩], .active⟩] := by
    rw [productions_expand_plain hbuilt.tidy (by decide) (by decide) hforms, productions_errand]
    · rfl
    · rw [productions_errand]
      decide
  have hstore : store.productions = #[⟨0, "errand", [⟨"GO", false⟩, ⟨"#", false⟩], .disabled⟩,
      ⟨1, "Trip", [⟨"errand", true⟩, ⟨"home", false⟩], .top⟩] := by
    simp [store, withStatuses, hrules]
  have husable : store.usable = [⟨1, "Trip", [⟨"errand", true⟩, ⟨"home", false⟩], .top⟩] := by
    simp [usable, hstore, Status.isUsable]
  -- only usable productions are asked how they spell their head, and there is one
  have halike : store.SpelledAlike := by
    intro p hp q hq
    rw [husable, List.mem_singleton] at hp
    subst hp
    rw [hstore] at hq
    rcases List.mem_cons.1 hq with rfl | hq
    · exact fun hlower => absurd hlower (by decide)
    · rw [List.mem_singleton.1 hq]
      exact fun _ => rfl
  -- the count is then the number of usable productions
  have hwritable : Files.empty.checkWritable (.ofString "out.sgm") = .ok () := rfl
  obtain ⟨_, _, _, _, _, _, hcount, _⟩ := dump_lists (hbuilt.expand "Trip" "[errand] home" "")
    (fun i => if i = 0 then .disabled else .top) hwritable
  refine ⟨hwritable, halike, ?_⟩
  rw [hcount.2 halike]
  change Except.ok (some store.usable.length) = _
  rw [husable]
  rfl

/-- Two rules of one head in two spellings are written twice each: every spelling has a section of
its own, and each section has the rules of both. -/
theorem dump_repeats :
    let store := ((extend { dictation := 5, maxAlerts := 10 } "HQ" "big").grammar.extend "hq"
      "tall").grammar
    store.ruleCount = 2 ∧ (store.dump .empty "out.sgm").result = .ok (some 4)
      ∧ (store.dump .empty "out.sgm").state.read (.ofString "out.sgm")
        = .ok (.text "=[HQ]\n  big\n  tall\n\n=[hq]\n  big\n  tall\n\n") := by
  intro store
  have hbig : Forms "HQ" (Text.words "big") [⟨"big", false⟩] := forms_iff.2 ⟨by decide, by decide⟩
  have htall : Forms "hq" (Text.words "tall") [⟨"tall", false⟩] := forms_iff.2 ⟨by decide, by decide⟩
  have hfirst : (extend { dictation := 5, maxAlerts := 10 } "HQ" "big").grammar.productions
      = #[⟨0, "HQ", [⟨"big", false⟩], .active⟩] := by
    rw [grammar_extend,
      productions_expand_plain (tidy_of_isEmpty rfl rfl) (by decide) (by decide) hbig (by simp)]
    rfl
  have hbuilt : (extend { dictation := 5, maxAlerts := 10 } "HQ" "big").grammar.Built :=
    (Built.empty 5 10).extend "HQ" "big"
  have hstore : store.productions
      = #[⟨0, "HQ", [⟨"big", false⟩], .active⟩, ⟨1, "hq", [⟨"tall", false⟩], .active⟩] := by
    have hnew : ∀ p ∈ (extend { dictation := 5, maxAlerts := 10 } "HQ" "big").grammar.productions.toList,
        p.key ≠ keyOf "hq" [⟨"tall", false⟩] := by
      rw [hfirst]
      decide
    simp only [store]
    rw [grammar_extend, productions_expand_plain hbuilt.tidy (by decide) (by decide) htall hnew, hfirst]
    rfl
  have hcoherent : store.Coherent := (hbuilt.extend "hq" "tall").coherent
  -- both spellings have a section, and each of them lists the productions of both
  have hgroups : store.groups
      = [("HQ", store.productions.toList), ("hq", store.productions.toList)] := by
    rw [hcoherent.groups_eq]
    simp only [heads, usableFor, usable, hstore]
    decide
  have hwritable : Files.empty.checkWritable (.ofString "out.sgm") = .ok () := rfl
  obtain ⟨hresult, hread⟩ := @dump_of_checkWritable store _ _ hwritable
  rw [hgroups, hstore] at hresult hread
  refine ⟨?_, hresult, hread.trans ?_⟩
  · rw [ruleCount, usable, hstore]
    rfl
  · decide +kernel

end Grammar

end Utterance
