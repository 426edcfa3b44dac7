import Utterance.Proofs.Grammar.Retraction

/-!
# How a grammar is stored

Beside its productions a grammar keeps their keys and an index of their heads, and parsing takes the
first step of a production without looking whether there is one. So the parts must agree in every
grammar that can be built. An operation adds a production that was read from a plain line, keeps some
productions and renumbers them, or changes statuses; what these changes preserve holds of every grammar.
-/

namespace Utterance

/-! ## Plain lines -/

namespace Sugar

variable {limit : Nat} {line v : List Char}

/-- A line without signs. -/
def Plain (line : List Char) : Prop := ∀ c ∈ line, sign? c = none

instance : DecidablePred Plain := fun line =>
  decidable_of_iff (line.all fun c => (sign? c).isNone) (by simp [Plain])

/-- A plain line has neither parentheses nor one of the signs for repetition. -/
theorem plain_iff : Plain line ↔ ∀ c ∈ line, c ∉ ['(', ')', '+', '*', '?'] := by
  refine forall₂_congr fun c _ => ?_
  unfold sign?
  split <;> simp_all

/-- No sign is in a plain line. -/
theorem Plain.not_mem (h : Plain line) {c : Char} (hc : (sign? c).isSome = true) : c ∉ line := by
  intro hmem
  rw [h c hmem] at hc
  cases hc

theorem Plain.isNested (h : Plain line) : isNested line = true :=
  isNested_of_not_mem (h.not_mem rfl) (h.not_mem rfl)

/-- A plain line has no sugar. -/
theorem Plain.sugarless (h : Plain line) : line.any isSugar = false := by
  rw [List.any_eq_false]
  intro c hc hsugar
  simp only [isSugar, Bool.or_eq_true, beq_iff_eq] at hsugar
  rcases hsugar with ((rfl | rfl) | rfl) | rfl <;> exact h.not_mem rfl hc

/-- If the parentheses of a line nest, rewriting it leaves no signs. What is put in for a sign has
none itself, so the induction is along the rewriting, and the last case is a line in which no sign
is left. -/
theorem plain_of_mem_variants (h : isNested line = true) (hv : v ∈ variants limit line) : Plain v := by
  -- whatever is put in for a sign, the parentheses of the line nest again
  fun_induction variants limit line with
  -- a group, kept or left out
  | case1 line before after hcut group ihPresent ihAbsent =>
    have hfirst := not_mem_cutAt '(' line
    rw [hcut] at hfirst
    rw [eq_of_cutAt hcut] at h
    obtain ⟨hpresent, habsent⟩ := isNested_open hfirst h
    rcases List.mem_append.1 hv with hv | hv
    · exact ihPresent hpresent hv
    · exact ihAbsent habsent hv
  -- a plus sign
  | case2 line _ hfirst before after hcut ih =>
    have hopen := not_mem_of_cutAt_none hfirst
    rw [eq_of_cutAt hcut] at hopen h
    obtain ⟨n, _, hv⟩ := List.mem_flatMap.1 hv
    exact ih n (isNested_replace hopen h (not_mem_dictated _)) hv
  -- a star
  | case3 line _ hfirst _ _ before after hcut ihNone ih =>
    have hopen := not_mem_of_cutAt_none hfirst
    rw [eq_of_cutAt hcut] at hopen h
    rcases List.mem_append.1 hv with hv | hv
    · exact ihNone (isNested_replace_char hopen h (by decide) (by decide)) hv
    · obtain ⟨n, _, hv⟩ := List.mem_flatMap.1 hv
      exact ih n (isNested_replace hopen h (not_mem_dictated _)) hv
  -- a question mark
  | case4 line _ hfirst _ _ _ _ before after hcut ihNone ih =>
    have hopen := not_mem_of_cutAt_none hfirst
    rw [eq_of_cutAt hcut] at hopen h
    rcases List.mem_append.1 hv with hv | hv
    · exact ihNone (isNested_replace_char hopen h (by decide) (by decide)) hv
    · exact ih (isNested_replace_char hopen h (by decide) (by decide)) hv
  -- no sign at all
  | case5 line _ hfirst _ hplus _ hstar _ hmaybe =>
    rw [List.mem_singleton.1 hv]
    exact sign?_eq_none_of_not_mem h (not_mem_of_cutAt_none hfirst) (not_mem_of_cutAt_none hplus)
      (not_mem_of_cutAt_none hstar) (not_mem_of_cutAt_none hmaybe)

end Sugar

namespace Grammar

variable {g : Grammar} {head line : String} {steps : List Step}

/-! ## Changes -/

/-- Steps that were read from a plain line of a head. -/
def Read (head : String) (steps : List Step) : Prop :=
  ∃ line : String, Sugar.Plain line.toList ∧ Forms head (Text.words line) steps

theorem Read.ne_nil (h : Read head steps) : steps ≠ [] := by
  obtain ⟨_, _, hforms⟩ := h
  exact hforms.ne_nil

/-- A plain line adds what it makes of `head`, if that is new. That it is new shows in the keys,
which are those of the productions only in a tidy grammar, so tidiness is carried along. -/
theorem addPlain_preserves_of_read {P : Grammar → Prop}
    (add : ∀ g steps, Read head steps → (∀ p ∈ g.productions.toList, p.key ≠ keyOf head steps) →
      P g → P ((g.remember head steps).push head steps .active))
    {s : Growth} (hs : s.grammar.Tidy ∧ P s.grammar) (place : String)
    (hplain : Sugar.Plain line.toList) :
    (s.addPlain head place line).grammar.Tidy ∧ P (s.addPlain head place line).grammar := by
  obtain ⟨htidy, hP⟩ := hs
  rcases Growth.addPlain_cases htidy head place line with
    ⟨hsame, _, _⟩ | ⟨steps, hforms, hnew, hgrown, _⟩
  · rw [hsame]
    exact ⟨htidy, hP⟩
  · rw [hgrown]
    exact ⟨(htidy.remember head steps).push head .active hforms.isWord,
      add s.grammar steps ⟨line, hplain, hforms⟩ hnew hP⟩

/-- A line adds what its variants make of `head`, as far as that is new. A variant has no sugar
left, so it is read as one production or as none. -/
theorem expand_preserves_of_read {P : Grammar → Prop}
    (add : ∀ g steps, Read head steps → (∀ p ∈ g.productions.toList, p.key ≠ keyOf head steps) →
      P g → P ((g.remember head steps).push head steps .active))
    (htidy : g.Tidy) (hg : P g) (line whence : String) : P (g.expand head line whence).grammar := by
  cases hnested : Sugar.isNested line.toList with
  | false => simpa [expand, hnested] using hg
  | true =>
    simp only [expand, hnested, Bool.not_true, Bool.false_eq_true, if_false]
    refine (List.foldlRecOn (motive := fun s : Growth => s.grammar.Tidy ∧ P s.grammar) _ _
      ⟨htidy, hg⟩ fun s hs l hl => addPlain_preserves_of_read add hs _ ?_).2
    obtain ⟨v, hv, rfl⟩ := List.mem_map.1 hl
    rw [String.toList_ofList]
    exact Sugar.plain_of_mem_variants hnested hv

/-- A retraction keeps some of the productions and some of the phrases. -/
theorem retract_preserves {P : Grammar → Prop}
    (keep : ∀ (kept : Production → Bool) (heard : String → Bool),
      P { g.withProductions (g.productions.toList.filter kept) with alerts := g.alerts.filter heard })
    (hg : P g) (head expansion : String) : P (g.retract head expansion).grammar := by
  unfold retract
  simp only
  split
  · exact hg
  · split
    · rw [alerts_withProductions]
      exact keep _ _
    -- only the head of attention phrases has any of them to lose; with another head all are kept
    · have hall := keep (fun p => !(g.probe head expansion).keys.contains p.key) fun _ => true
      rw [List.filter_true, ← alerts_withProductions g (g.productions.toList.filter _)] at hall
      exact hall

/-- Whatever holds of an empty grammar and survives the changes that operations are made of holds of
every grammar that can be built: a path is set, productions are changed in their statuses, one is
added, or some are kept. -/
theorem Built.induct {P : Grammar → Prop}
    (empty : ∀ dictation maxAlerts, P { dictation, maxAlerts })
    (path : ∀ g path, P g → P { g with path })
    (map : ∀ g (f : Production → Production), (∀ p, (f p).id = p.id) → (∀ p, (f p).head = p.head) →
      (∀ p, (f p).steps = p.steps) → P g → P { g with productions := g.productions.map f })
    (add : ∀ g head steps, Read head steps → (∀ p ∈ g.productions.toList, p.key ≠ keyOf head steps) →
      P g → P ((g.remember head steps).push head steps .active))
    (keep : ∀ g (kept : Production → Bool) (heard : String → Bool), P g →
      P { g.withProductions (g.productions.toList.filter kept) with alerts := g.alerts.filter heard })
    (h : g.Built) : P g := by
  -- that what is added is new shows only if the keys are those of the productions
  have hboth : g.Tidy ∧ P g := by
    refine h.of_operations (P := fun g => g.Tidy ∧ P g) ?_ ?_ ?_ ?_ ?_
    · exact fun dictation maxAlerts => ⟨tidy_of_isEmpty rfl rfl, empty dictation maxAlerts⟩
    · exact fun g p hg => ⟨hg.1.of_eq rfl rfl, path g p hg.2⟩
    · exact fun g head line whence hg => ⟨hg.1.expand head line whence,
        expand_preserves_of_read (fun g steps => add g head steps) hg.1 hg.2 line whence⟩
    · exact fun g head expansion hg => ⟨hg.1.retract head expansion,
        retract_preserves (fun kept heard => keep g kept heard hg.2) hg.2 head expansion⟩
    · intro g head status hg
      refine ⟨hg.1.setStatus head status, map g _ ?_ ?_ ?_ hg.2⟩ <;> (intro p; split <;> rfl)
  exact hboth.2

/-! ## Invariants -/

/-- Numbering productions anew keeps their keys. -/
theorem key_renumberFrom (n : Nat) (ps : List Production) :
    (renumberFrom n ps).map Production.key = ps.map Production.key := by
  induction ps generalizing n with
  | nil => rfl
  | cons p ps ih => rw [renumberFrom, List.map_cons, List.map_cons, ih]; rfl

/-- The head index of a grammar has exactly the heads of its productions. -/
def Heads (g : Grammar) : Prop :=
  ∀ name : String, g.byHead.contains name = true
    ↔ ∃ p ∈ g.productions.toList, Text.lower p.head = name

/-- Adding a production adds its head to the index. -/
theorem Heads.push (h : g.Heads) (head : String) (steps : List Step) (status : Status) :
    (g.push head steps status).Heads := by
  intro name
  rw [exists_mem_push_iff, ← h name, Grammar.push, Std.HashMap.contains_insert, Bool.or_eq_true,
    beq_iff_eq]

theorem heads_withProductions (g : Grammar) (ps : List Production) : (g.withProductions ps).Heads :=
  withProductions_preserves (fun _ p _ hg => hg.push p.head p.steps p.status) fun name => by simp

/-- The head index of a built grammar has exactly the heads of its productions. -/
theorem Built.heads (h : g.Built) : g.Heads := by
  refine h.induct (P := Heads) ?_ ?_ ?_ ?_ ?_
  · intro dictation maxAlerts name
    simp
  · exact fun g path hg => hg
  · intro g f _ hhead _ hg name
    simp [hg name, hhead]
  · intro g head steps _ _ hg
    refine Heads.push ?_ head steps .active
    unfold remember
    split <;> exact hg
  · exact fun g kept _ _ => heads_withProductions g _

/-- No two productions of a built grammar have one key. Only adding a production could break this,
and what is added is new. -/
theorem Built.nodup_keys (h : g.Built) : (g.productions.toList.map Production.key).Nodup := by
  refine h.induct (P := fun g => (g.productions.toList.map Production.key).Nodup) ?_ ?_ ?_ ?_ ?_
  · exact fun _ _ => List.nodup_nil
  · exact fun g path hg => hg
  · intro g f _ hhead hsteps hg
    have hkey : Production.key ∘ f = Production.key := by
      funext p
      simp [Production.key, hhead, hsteps]
    simpa [hkey] using hg
  -- only here a key is added
  · intro g head steps _ hnew hg
    simp only [Grammar.push, remember_productions, Array.toList_push, List.map_append]
    refine List.nodup_append.2 ⟨hg, List.pairwise_singleton _ _, ?_⟩
    intro key hkey key' hkey'
    obtain ⟨p, hp, rfl⟩ := List.mem_map.1 hkey
    rw [List.mem_singleton.1 hkey']
    exact hnew p hp
  · intro g kept _ hg
    simp only [productions_withProductions, renumber, key_renumberFrom]
    exact hg.sublist (List.filter_sublist.map _)

/-- Every production was read from a plain line. Nothing changes the head or the steps of a
production once it is there. -/
theorem Built.read (h : g.Built) : ∀ p ∈ g.productions.toList, Read p.head p.steps := by
  refine h.induct (P := fun g => ∀ p ∈ g.productions.toList, Read p.head p.steps) ?_ ?_ ?_ ?_ ?_
  · simp
  · exact fun g path hg => hg
  · intro g f _ hhead hsteps hg p hp
    simp only [Array.toList_map, List.mem_map] at hp
    obtain ⟨q, hq, rfl⟩ := hp
    rw [hhead, hsteps]
    exact hg q hq
  -- the new production was read before it was added
  · intro g head steps hread _ hg p hp
    simp only [Grammar.push, remember_productions, Array.toList_push, List.mem_append,
      List.mem_singleton] at hp
    rcases hp with hp | rfl
    · exact hg p hp
    · exact hread
  -- numbers change when some are taken out, but neither heads nor steps do
  · intro g kept _ hg p hp
    simp only [productions_withProductions] at hp
    obtain ⟨q, hq, hsame⟩ := exists_of_mem_renumberFrom hp
    rw [← hsame]
    exact hg q (List.mem_filter.1 hq).1

theorem maxAlerts_withProductions (g : Grammar) (ps : List Production) :
    (g.withProductions ps).maxAlerts = g.maxAlerts :=
  withProductions_preserves (P := fun g' => g'.maxAlerts = g.maxAlerts) (fun _ _ _ hg => hg) rfl

/-- Attention phrases are remembered as long as there is room, and none of the other changes adds
one. -/
theorem Built.length_alerts_le (h : g.Built) : (g.alerts.length : Int) ≤ max 0 g.maxAlerts := by
  refine h.induct (P := fun g => (g.alerts.length : Int) ≤ max 0 g.maxAlerts) ?_ ?_ ?_ ?_ ?_
  · exact fun _ maxAlerts => Int.le_max_left 0 maxAlerts
  · exact fun g path hg => hg
  · exact fun g f _ _ _ hg => hg
  · intro g head steps _ _ hg
    simp only [Grammar.push, remember]
    split
    · rename_i hroom
      simp only [Bool.and_eq_true, decide_eq_true_eq] at hroom
      simp only [List.length_append, List.length_singleton]
      omega
    · exact hg
  · intro g kept heard hg
    have hle := List.length_filter_le heard g.alerts
    simp only [maxAlerts_withProductions]
    omega

/-! ## The stored form -/

/-- What parsing and the other operations rely on. -/
structure Stored (g : Grammar) : Prop where
  /-- Productions are numbered by their places. -/
  id_eq : ∀ (i : Nat) (p : Production), g.productions[i]? = some p → p.id = i
  /-- No two productions are the same up to case. -/
  nodup_keys : (g.productions.toList.map Production.key).Nodup
  /-- The stored keys are those of the productions. -/
  keys : ∀ key, g.keys.contains key = true ↔ ∃ p ∈ g.productions.toList, p.key = key
  /-- The index has the heads of the productions, in lower case, and no others. -/
  heads : g.Heads
  /-- Under each head it has the places of its productions, in ascending order. -/
  places : ∀ (name : String) (ids : Array Nat), g.byHead[name]? = some ids → ids.toList.Pairwise (· < ·)
    ∧ ∀ i, i ∈ ids.toList ↔ ∃ p, g.productions[i]? = some p ∧ Text.lower p.head = name
  steps_ne_nil : ∀ p ∈ g.productions.toList, p.steps ≠ []
  /-- No production starts with its own head. -/
  other : ∀ p ∈ g.productions.toList, ∀ first ∈ p.steps.head?, first.nonterminal = true →
    Text.lower first.symbol ≠ Text.lower p.head
  symbol_ne_empty : ∀ p ∈ g.productions.toList, ∀ step ∈ p.steps, step.symbol ≠ ""
  /-- No symbol has a blank or a sign of sugar in it. -/
  symbol_plain : ∀ p ∈ g.productions.toList, ∀ step ∈ p.steps, ∀ c ∈ step.symbol.toList,
    Text.isBlank c = false ∧ c ∉ ['(', ')', '+', '*', '?']
  /-- There are no more attention phrases than the grammar has room for. -/
  length_alerts_le : (g.alerts.length : Int) ≤ max 0 g.maxAlerts

theorem not_mem_signs {c : Char} (h : Sugar.sign? c = none) : c ∉ ['(', ')', '+', '*', '?'] := by
  intro hc
  simp only [List.mem_cons, List.not_mem_nil, or_false] at hc
  rcases hc with rfl | rfl | rfl | rfl | rfl <;> cases h

/-- The characters of a symbol are those of the line that it was read from. -/
theorem Read.plain (h : Read head steps) : ∀ step ∈ steps, Sugar.Plain step.symbol.toList := by
  obtain ⟨line, hplain, hforms⟩ := h
  intro step hstep c hc
  obtain ⟨token, htoken, hwritten⟩ := hforms.exists_written hstep
  refine hplain c (Text.mem_of_mem_words htoken ?_)
  cases hwritten with
  | word _ _ => exact hc
  | head _ _ _ => simp [hc]

/-- Under a name in lower case the table has the places of the productions with such a head, in
ascending order, and no others. -/
theorem Coherent.places (h : g.Coherent) (name : String) :
    (g.byHead.getD name #[]).toList.Pairwise (· < ·)
      ∧ ∀ i, i ∈ (g.byHead.getD name #[]).toList
        ↔ ∃ p, g.productions[i]? = some p ∧ Text.lower p.head = name := by
  rw [h.byHead_eq]
  refine ⟨List.pairwise_lt_range.filter _, fun i => ?_⟩
  simp only [List.mem_filter, List.mem_range, Option.any_eq_true, beq_iff_eq, and_iff_right_iff_imp]
  rintro ⟨p, hp, _⟩
  exact (Array.getElem?_eq_some_iff.1 hp).1

/-- However a grammar was built, its parts agree with each other, and every production can be used as
it is. -/
theorem stored_of_built (h : g.Built) : g.Stored where
  id_eq i p hp := h.coherent.id_eq hp
  nodup_keys := h.nodup_keys
  keys := h.tidy.keys
  heads := h.heads
  -- a head that is not in the index has no places, so only those that are in it have to be looked
  -- at
  places name ids hids := by
    have hplaces := h.coherent.places name
    rwa [Std.HashMap.getD_eq_getD_getElem?, hids] at hplaces
  steps_ne_nil p hp := (h.read p hp).ne_nil
  other p hp := by
    obtain ⟨_, _, hforms⟩ := h.read p hp
    exact hforms.other
  symbol_ne_empty p hp step hstep := by
    rintro hempty
    apply (h.tidy.isWord p hp step hstep).1
    rw [hempty]
    rfl
  symbol_plain p hp step hstep c hc :=
    ⟨(h.tidy.isWord p hp step hstep).2 c hc, not_mem_signs ((h.read p hp).plain step hstep c hc)⟩
  length_alerts_le := h.length_alerts_le

/-- The head of the only production is looked up in lower case, and in no other. -/
theorem stored_errand :
    let g := ((expand { dictation := 5, maxAlerts := 10 } "errand" "GO #" "").grammar.enable
      (some "ERRAND")).1
    g.productions = #[⟨0, "errand", [⟨"GO", false⟩, ⟨"#", false⟩], .top⟩] ∧ g.Stored
      ∧ g.byHead.contains "errand" = true ∧ g.byHead.contains "ERRAND" = false := by
  intro g
  have hproductions : g.productions = #[⟨0, "errand", [⟨"GO", false⟩, ⟨"#", false⟩], .top⟩] := by
    have hmatches : matchesHead (some "ERRAND")
        ⟨0, "errand", [⟨"GO", false⟩, ⟨"#", false⟩], .active⟩ = true := by decide
    simp [g, enable, setStatus, productions_errand, hmatches]
  have hstored : g.Stored :=
    stored_of_built (((Built.empty 5 10).expand "errand" "GO #" "").enable (some "ERRAND"))
  have hheads : ∀ name, g.byHead.contains name = true ↔ Text.lower "errand" = name := by
    intro name
    rw [hstored.heads name, hproductions]
    simp
  refine ⟨hproductions, hstored, (hheads _).2 (by decide), ?_⟩
  rw [← Bool.not_eq_true, hheads]
  decide

end Grammar

end Utterance
