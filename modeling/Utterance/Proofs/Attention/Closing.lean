import Utterance.Attention
import Utterance.Proofs.AssocList.Omission
import Utterance.Proofs.Cursor.Walk

/-!
# Attention and closing markers

An association list with closing markers is the list without them but for these bare markers. Whether
there is an attention phrase somewhere does not depend on them, and among the entries that may come
before a leading attention phrase markers of all kinds are passed over. But behind a leading kind of
thing the attention phrase must follow at once. If the kind is the last slot of its phrase, the marker
that closes the phrase comes between the two, and the attention phrase is not heard. That is the only
case in which the closing markers matter, whatever the grammar and the sentence are.
-/

namespace Utterance

/-! ## Two lists that differ by bare markers -/

namespace Attention

open AssocList (Omits isClosing slotOf)

variable {a b : AssocList} {es fs : List String} {e : String}

/-- A bare marker stands directly behind a leading kind of thing. -/
def ClosesKind (items : List String) : Prop :=
  ∃ kind close rest, items.dropWhile mayLead = kind :: close :: rest ∧ slotOf kind = "AKO"
    ∧ isClosing close = true

/-- Whether an attention phrase comes behind the entries that may lead, and what follows it passes a
test. -/
def comesFirst (passes : List String → Bool) (items : List String) : Bool :=
  match dropLead items with
  | e :: rest => slotOf e == slot && passes rest
  | [] => false

/-- The test for an attention phrase at the start, put in terms of what comes first. -/
theorem inList_start (a : AssocList) :
    inList a .start = (a.hasSlot slot false && comesFirst (fun _ => true) a.entries) := by
  rw [inList, comesFirst]
  cases dropLead a.entries with
  | nil => rfl
  | cons e rest => simp

theorem inList_only (a : AssocList) :
    inList a .only = (a.hasSlot slot false && comesFirst (·.all isClosing) a.entries) := rfl

theorem mayLead_of_isClosing (h : isClosing e = true) : mayLead e = true := by
  rw [mayLead, AssocList.isMarker_of_isClosing h, Bool.true_or]

theorem slotOf_of_isClosing (h : isClosing e = true) : (slotOf e == slot) = false := by
  rcases AssocList.isClosing_cases h with rfl | rfl | rfl <;> decide

/-- Bare markers may lead, so in both lists the same entry is the first that may not. -/
theorem dropWhile_mayLead_cases (h : Omits isClosing es fs) :
    (es.dropWhile mayLead = [] ∧ fs.dropWhile mayLead = [])
      ∨ ∃ e es' fs', es.dropWhile mayLead = e :: es' ∧ fs.dropWhile mayLead = e :: fs'
        ∧ Omits isClosing es' fs' := by
  -- by induction on which bare markers are left out
  induction h with
  | nil => exact .inl ⟨rfl, rfl⟩
  | keep e rest ih =>
    by_cases hlead : mayLead e = true
    · rw [List.dropWhile_cons_of_pos hlead, List.dropWhile_cons_of_pos hlead]
      exact ih
    · rw [List.dropWhile_cons_of_neg hlead, List.dropWhile_cons_of_neg hlead]
      exact .inr ⟨e, _, _, rfl, rfl, rest⟩
  -- a bare marker may lead, so it is passed over where it stands
  | leave idle _ ih =>
    rw [List.dropWhile_cons_of_pos (mayLead_of_isClosing idle)]
    exact ih

theorem dropLead_of_kind {rest : List String} (h : es.dropWhile mayLead = e :: rest)
    (hkind : slotOf e = "AKO") : dropLead es = rest := by
  simp [dropLead, h, hkind]

theorem dropLead_of_ne_kind {rest : List String} (h : es.dropWhile mayLead = e :: rest)
    (hkind : slotOf e ≠ "AKO") : dropLead es = e :: rest := by
  simp [dropLead, h, hkind]

theorem comesFirst_of_dropLead {passes : List String → Bool} {rest : List String}
    (h : dropLead es = e :: rest) : comesFirst passes es = (slotOf e == slot && passes rest) := by
  rw [comesFirst, h]

/-- A bare marker closes a kind just if it stands directly behind the kind that ends the lead. -/
theorem closesKind_iff {rest : List String} (h : es.dropWhile mayLead = e :: rest) :
    ClosesKind es ↔ slotOf e = "AKO" ∧ ∃ close after, rest = close :: after
      ∧ isClosing close = true := by
  constructor
  · rintro ⟨kind, close, after, hsplit, hkind, hclose⟩
    obtain ⟨rfl, rfl⟩ := List.cons.inj (h.symm.trans hsplit)
    exact ⟨hkind, close, after, rfl, hclose⟩
  · rintro ⟨hkind, close, after, rfl, hclose⟩
    exact ⟨e, close, after, h, hkind, hclose⟩

/-- An attention phrase comes first in the list with more bare markers if it does in the other one
and no bare marker comes between a leading kind and the phrase. Up to that kind the markers are
dropped in both lists, and this is the one place where they are not. -/
theorem comesFirst_iff {passes : List String → Bool}
    (hpasses : ∀ {es fs}, Omits isClosing es fs → passes es = passes fs) (h : Omits isClosing es fs) :
    comesFirst passes es = true ↔ comesFirst passes fs = true ∧ ¬ClosesKind es := by
  rcases dropWhile_mayLead_cases h with ⟨hes, hfs⟩ | ⟨e, es', fs', hes, hfs, hrest⟩
  · simp [comesFirst, dropLead, hes, hfs]
  rw [closesKind_iff hes]
  by_cases hkind : slotOf e = "AKO"
  · have hes := dropLead_of_kind hes hkind
    have hfs := dropLead_of_kind hfs hkind
    cases hrest with
    | nil => simp [comesFirst, hes, hfs]
    | keep d rest =>
      rw [comesFirst_of_dropLead hes, comesFirst_of_dropLead hfs, hpasses rest]
      constructor
      · intro hfirst
        refine ⟨hfirst, ?_⟩
        rintro ⟨_, close, after, hsplit, hclose⟩
        -- an attention phrase is no bare marker
        obtain ⟨rfl, _⟩ := List.cons.inj hsplit
        rw [slotOf_of_isClosing hclose, Bool.false_and] at hfirst
        cases hfirst
      · exact And.left
    -- only here do the lists differ: what follows the kind is a bare marker in one of them
    | leave idle rest =>
      rw [comesFirst_of_dropLead hes, slotOf_of_isClosing idle, Bool.false_and]
      constructor
      · intro hfirst
        cases hfirst
      · rintro ⟨_, hnot⟩
        exact absurd ⟨hkind, _, _, rfl, idle⟩ hnot
  · rw [comesFirst_of_dropLead (dropLead_of_ne_kind hes hkind),
      comesFirst_of_dropLead (dropLead_of_ne_kind hfs hkind)]
    simp [hpasses hrest, hkind]

/-- A list calls for attention if it does so without some of its bare markers, unless an attention
phrase must come first and a bare marker stands directly behind a leading kind. -/
theorem inList_iff_of_omits (h : Omits isClosing a.entries b.entries) (mode : AttentionMode) :
    inList a mode = true
      ↔ inList b mode = true ∧ ¬((mode = .start ∨ mode = .only) ∧ ClosesKind a.entries) := by
  have hslot : a.hasSlot slot false = b.hasSlot slot false :=
    h.hasSlot_eq (fun _ => AssocList.isMarker_of_isClosing) slot
  cases mode with
  | always => simp [inList]
  | anywhere => simp [inList, hslot]
  | start =>
    rw [inList_start, inList_start, hslot, Bool.and_eq_true, Bool.and_eq_true,
      comesFirst_iff (fun _ => rfl) h]
    simp [and_assoc]
  | only =>
    -- behind the attention phrase bare markers are allowed anyway
    have hall : ∀ {es fs}, Omits isClosing es fs → es.all isClosing = fs.all isClosing :=
      fun hrest => hrest.all_eq fun _ => id
    rw [inList_only, inList_only, hslot, Bool.and_eq_true, Bool.and_eq_true, comesFirst_iff hall h]
    simp [and_assoc]

end Attention

namespace Analysis

variable {g : Grammar} {words : List String} {a : Analysis}

/-! ## Other candidates -/

/-- The analysis after candidates were selected, one after the other. -/
def selectAll (g : Grammar) (a : Analysis) (picks : List Int) : Analysis :=
  picks.foldl (fun a n => (a.select g n).state) a

/-- The candidates stay what they are when one of them is selected: a candidate is asked for by its
number, and the selected one has one. -/
theorem Derives.select (h : a.Derives g words) (n : Int) : (a.select g n).state.Derives g words := by
  cases hs : a.candidate? (some n) with
  | none =>
    rw [Analysis.select, hs]
    exact h
  | some s =>
    obtain ⟨k, rfl⟩ : ∃ k : Nat, n = k := by
      rcases lt_or_ge n 0 with hneg | hpos
      · rw [candidate?_neg a hneg] at hs
        cases hs
      · exact Int.eq_ofNat_of_zero_le hpos
    rw [select_of_candidate? hs]
    intro m t ht
    cases m with
    -- the selected one is the one with the number
    | none => exact h (some k) t (by rw [candidate?_natCast]; exact ht)
    | some m => exact h (some m) t ht

/-- Nor do they when several are selected, one after the other. -/
theorem Derives.selectAll (h : a.Derives g words) (picks : List Int) :
    (a.selectAll g picks).Derives g words := by
  induction picks generalizing a with
  | nil => exact h
  | cons n picks ih => exact ih (h.select n)

/-- Whether or not a sentence parses, its candidates stand for derivations of all its words. -/
theorem derives_parse_of_coherent (hg : g.Coherent) (sentence : Sentence) (conf : Confidence) :
    (parse g sentence conf).state.Derives g sentence.toWords := by
  by_cases hnone : (parse g sentence conf).state.candidates = []
  · intro n s hs
    obtain ⟨id, hid, _⟩ := exists_id_of_candidate? hs
    rw [hnone] at hid
    cases hid
  · exact derives_parse hg hnone

/-! ## The association list -/

/-- There are both association lists, and the one without closing markers omits some bare markers of
the other. -/
theorem Derives.exists_omits (hg : g.Coherent) (h : a.Derives g words) :
    ∃ closed plain, (a.assocList g true).result = .ok closed
      ∧ (a.assocList g false).result = .ok plain
      ∧ AssocList.Omits AssocList.isClosing closed.entries plain.entries := by
  cases hs : a.candidate? none with
  -- without a candidate both lists are empty
  | none =>
    have hlist : ∀ closing, (a.assocList g closing).result = .ok ⟨""⟩ := by
      intro closing
      simp only [assocList, top, hs]
    exact ⟨_, _, hlist true, hlist false, .refl _ _⟩
  | some s =>
    obtain ⟨p, _, hp, _, _⟩ := Grammar.exists_of_mem_derivations (h none s hs)
    have hlist := assocList_eq_ofEntries hg hs (h none s hs) hp
    refine ⟨_, _, hlist true, hlist false, ?_⟩
    exact (Tree.omits_entries p.head _).entries_ofEntries fun _ => AssocList.plain_of_isClosing

/-- Whatever sentence was parsed, and whichever of its candidates were selected, there is an association
list with closing markers and one without, and for every mode the first calls for attention exactly if
the second does, unless the attention phrase must come first and in the first list a bare marker stands
directly behind a leading kind of thing. -/
theorem inList_closed_iff {g : Grammar} (hg : g.Built) (status : Nat → Status) (sentence : Sentence)
    (conf : Confidence) (picks : List Int) :
    let grammar := g.withStatuses status
    let a := (parse grammar sentence conf).state.selectAll grammar picks
    ∃ closed plain, (a.assocList grammar true).result = .ok closed
      ∧ (a.assocList grammar false).result = .ok plain
      ∧ ∀ mode, Attention.inList closed mode = true
        ↔ Attention.inList plain mode = true
          ∧ ¬((mode = .start ∨ mode = .only) ∧ Attention.ClosesKind closed.entries) := by
  intro grammar a
  have hcoherent : grammar.Coherent := hg.coherent.withStatuses status
  have hderives : a.Derives grammar sentence.toWords :=
    (derives_parse_of_coherent hcoherent sentence conf).selectAll picks
  obtain ⟨closed, plain, hclosed, hplain, homits⟩ := hderives.exists_omits hcoherent
  exact ⟨closed, plain, hclosed, hplain, Attention.inList_iff_of_omits homits⟩

/-! ## A kind at the end of a phrase -/

/-- A grammar for a call in which a phrase with a kind comes before the attention phrase. -/
def summons : Grammar :=
  [("call", "<$whom> <ATTN>"), ("$whom", "<AKO>"), ("AKO", "servant"), ("ATTN", "robot")].foldl
    (fun g rule => (g.expand rule.1 rule.2 "").grammar) { dictation := 5, maxAlerts := 10 }

theorem built_summons : summons.Built :=
  ((((Grammar.Built.empty 5 10).expand "call" "<$whom> <ATTN>" "").expand "$whom" "<AKO>"
    "").expand "AKO" "servant" "").expand "ATTN" "robot" ""

/-- The grammar of the example has four productions. -/
theorem productions_summons :
    summons.productions
      = #[⟨0, "call", [⟨"$whom", true⟩, ⟨"ATTN", true⟩], .active⟩, ⟨1, "$whom", [⟨"AKO", true⟩], .active⟩,
        ⟨2, "AKO", [⟨"servant", false⟩], .active⟩, ⟨3, "ATTN", [⟨"robot", false⟩], .active⟩] := by
  have hforms : Grammar.Forms "call" (Text.words "<$whom> <ATTN>") [⟨"$whom", true⟩, ⟨"ATTN", true⟩]
      ∧ Grammar.Forms "$whom" (Text.words "<AKO>") [⟨"AKO", true⟩]
      ∧ Grammar.Forms "AKO" (Text.words "servant") [⟨"servant", false⟩]
      ∧ Grammar.Forms "ATTN" (Text.words "robot") [⟨"robot", false⟩] := by
    simp only [Grammar.forms_iff]
    decide
  -- the rules are added one by one; each is new, as no production has its key yet
  obtain ⟨hbuilt, hcall⟩ := (Grammar.Built.empty 5 10).expand_plain (by decide) (by decide) hforms.1
    (by decide)
  obtain ⟨hbuilt, hwhom⟩ := hbuilt.expand_plain (by decide) (by decide) hforms.2.1
    (by rw [hcall]; decide)
  obtain ⟨hbuilt, hkind⟩ := hbuilt.expand_plain (by decide) (by decide) hforms.2.2.1
    (by rw [hwhom, hcall]; decide)
  obtain ⟨_, hattention⟩ := hbuilt.expand_plain (by decide) (by decide) hforms.2.2.2
    (by rw [hkind, hwhom, hcall]; decide)
  show (Grammar.expand _ "ATTN" "robot" "").grammar.productions = _
  rw [hattention, hkind, hwhom, hcall]
  rfl

/-- The grammar above, with productions that may start a sentence. -/
abbrev topSummons : Grammar := summons.withStatuses fun _ => .top

/-- The four productions, with the statuses of this grammar. -/
theorem production_topSummons {rule : Nat} {p : Production} :
    topSummons.productions[rule]? = some p
      ↔ (rule = 0 ∧ p = ⟨0, "call", [⟨"$whom", true⟩, ⟨"ATTN", true⟩], .top⟩)
        ∨ (rule = 1 ∧ p = ⟨1, "$whom", [⟨"AKO", true⟩], .top⟩)
        ∨ (rule = 2 ∧ p = ⟨2, "AKO", [⟨"servant", false⟩], .top⟩)
        ∨ rule = 3 ∧ p = ⟨3, "ATTN", [⟨"robot", false⟩], .top⟩ := by
  have hproductions : topSummons.productions
      = #[⟨0, "call", [⟨"$whom", true⟩, ⟨"ATTN", true⟩], .top⟩, ⟨1, "$whom", [⟨"AKO", true⟩], .top⟩,
        ⟨2, "AKO", [⟨"servant", false⟩], .top⟩, ⟨3, "ATTN", [⟨"robot", false⟩], .top⟩] := by
    simp [topSummons, Grammar.withStatuses, productions_summons]
  rw [hproductions]
  rcases rule with _ | _ | _ | _ | rule
  -- the productions of the grammar, and then none
  · simp [eq_comm]
  · simp [eq_comm]
  · simp [eq_comm]
  · simp [eq_comm]
  · simp

theorem production_call :
    topSummons.productions[0]? = some ⟨0, "call", [⟨"$whom", true⟩, ⟨"ATTN", true⟩], .top⟩ :=
  production_topSummons.2 (.inl ⟨rfl, rfl⟩)

theorem production_whom : topSummons.productions[1]? = some ⟨1, "$whom", [⟨"AKO", true⟩], .top⟩ :=
  production_topSummons.2 (.inr (.inl ⟨rfl, rfl⟩))

theorem production_kind : topSummons.productions[2]? = some ⟨2, "AKO", [⟨"servant", false⟩], .top⟩ :=
  production_topSummons.2 (.inr (.inr (.inl ⟨rfl, rfl⟩)))

theorem production_attention :
    topSummons.productions[3]? = some ⟨3, "ATTN", [⟨"robot", false⟩], .top⟩ :=
  production_topSummons.2 (.inr (.inr (.inr ⟨rfl, rfl⟩)))

variable {pos stop rule : Nat} {steps inner : List Step} {parts : List Tree}

/-- A head with one production is taken up by that production. In the grammar of the example every
head has only one, so its sentence has one derivation. -/
theorem exists_of_expands_head {name : String}
    (honly : ∀ {r p}, topSummons.productions[r]? = some p → Text.lower p.head = Text.lower name →
      r = rule ∧ p.steps = inner)
    (h : topSummons.Expands words (⟨name, true⟩ :: steps) pos stop parts) :
    ∃ mid inside rest, parts = .node rule pos mid inside :: rest
      ∧ topSummons.Expands words inner pos mid inside
      ∧ topSummons.Expands words steps mid stop rest := by
  obtain ⟨_, p, mid, inside, rest, hp, _, hnamed, rfl, hinside, hrest⟩ :=
    (Grammar.Expands.head_iff rfl).1 h
  obtain ⟨rfl, rfl⟩ := honly hp hnamed
  exact ⟨mid, inside, rest, rfl, hinside, hrest⟩

/-- A fixed word takes up one word. -/
theorem eq_of_expands_word {word : String}
    (h : topSummons.Expands words [⟨word, false⟩] pos stop parts) :
    stop = pos + 1 ∧ parts = [.word] :=
  ((Grammar.Expands.single_iff rfl).1 h).2

/-- A slot takes up its word. -/
theorem eq_of_expands_slot {name word : String}
    (honly : ∀ {r p}, topSummons.productions[r]? = some p → Text.lower p.head = Text.lower name →
      r = rule ∧ p.steps = [⟨word, false⟩])
    (h : topSummons.Expands words [⟨name, true⟩] pos stop parts) :
    stop = pos + 1 ∧ parts = [.node rule pos (pos + 1) [.word]] := by
  obtain ⟨mid, inside, rest, rfl, hinside, hrest⟩ := exists_of_expands_head honly h
  obtain ⟨rfl, rfl⟩ := eq_of_expands_word hinside
  cases hrest
  exact ⟨rfl, rfl⟩

/-- Only one production stands for the phrase. -/
theorem only_whom {r : Nat} {p : Production} (hp : topSummons.productions[r]? = some p)
    (hnamed : Text.lower p.head = Text.lower "$whom") : r = 1 ∧ p.steps = [⟨"AKO", true⟩] := by
  rcases production_topSummons.1 hp with ⟨rfl, rfl⟩ | ⟨rfl, rfl⟩ | ⟨rfl, rfl⟩ | ⟨rfl, rfl⟩ <;>
    revert hnamed <;> decide

/-- Only one production stands for the kind. -/
theorem only_kind {r : Nat} {p : Production} (hp : topSummons.productions[r]? = some p)
    (hnamed : Text.lower p.head = Text.lower "AKO") : r = 2 ∧ p.steps = [⟨"servant", false⟩] := by
  rcases production_topSummons.1 hp with ⟨rfl, rfl⟩ | ⟨rfl, rfl⟩ | ⟨rfl, rfl⟩ | ⟨rfl, rfl⟩ <;>
    revert hnamed <;> decide

/-- Only one production stands for the attention phrase. -/
theorem only_attention {r : Nat} {p : Production} (hp : topSummons.productions[r]? = some p)
    (hnamed : Text.lower p.head = Text.lower "ATTN") : r = 3 ∧ p.steps = [⟨"robot", false⟩] := by
  rcases production_topSummons.1 hp with ⟨rfl, rfl⟩ | ⟨rfl, rfl⟩ | ⟨rfl, rfl⟩ | ⟨rfl, rfl⟩ <;>
    revert hnamed <;> decide

/-- The derivation of the call: the phrase with its kind, and the attention phrase. -/
def summon : Tree := .node 0 0 2 [.node 1 0 1 [.node 2 0 1 [.word]], .node 3 1 2 [.word]]

/-- The call has one derivation, from its first rule. -/
theorem mem_derivations_topSummons {tree : Tree} :
    tree ∈ topSummons.derivations ["servant", "robot"] rule ↔ rule = 0 ∧ tree = summon := by
  constructor
  · rintro ⟨parts, rfl, p, hp, _, hexpands⟩
    rcases production_topSummons.1 hp with ⟨rfl, rfl⟩ | ⟨rfl, rfl⟩ | ⟨rfl, rfl⟩ | ⟨rfl, rfl⟩
    · obtain ⟨mid, inside, rest, rfl, hwhom, hrest⟩ := exists_of_expands_head only_whom hexpands
      obtain ⟨rfl, rfl⟩ := eq_of_expands_slot only_kind hwhom
      obtain ⟨_, rfl⟩ := eq_of_expands_slot only_attention hrest
      exact ⟨rfl, rfl⟩
    -- the phrase and the slots take up one word only
    · exact absurd (eq_of_expands_slot only_kind hexpands).1 (by decide)
    · exact absurd (eq_of_expands_word hexpands).1 (by decide)
    · exact absurd (eq_of_expands_word hexpands).1 (by decide)
  -- the tree is built up rule by rule
  · rintro ⟨rfl, rfl⟩
    refine ⟨_, rfl, _, production_call, rfl, ?_⟩
    refine .head rfl production_whom rfl rfl ?_ ?_
    · refine .head rfl production_kind rfl rfl ?_ (.nil 1)
      exact .word rfl rfl (.inr rfl) (.nil 1)
    · refine .head rfl production_attention rfl rfl ?_ (.nil 2)
      exact .word rfl rfl (.inr rfl) (.nil 2)

theorem tokenize_summons : tokenize true "servant robot" = ["servant", "robot"] := by decide +kernel

theorem toWords_summons : (Sentence.text "servant robot").toWords = ["servant", "robot"] :=
  tokenize_summons

/-- The sentence is derived, so there are candidates. -/
theorem candidates_summons :
    (parse topSummons (.text "servant robot") .absent).state.candidates ≠ [] := by
  have hsome : (Sentence.text "servant robot").toWords ≠ [] := by
    rw [toWords_summons]
    exact List.cons_ne_nil _ _
  have hderives : summon ∈ topSummons.derivations (Sentence.text "servant robot").toWords 0 := by
    rw [toWords_summons]
    exact mem_derivations_topSummons.2 ⟨rfl, rfl⟩
  exact candidates_ne_nil (built_summons.coherent.withStatuses _) rfl hsome production_call rfl
    hderives

/-- The selected derivation of the call is the only one. -/
theorem exists_selected_summons :
    ∃ s, Selected topSummons (tokenize true "servant robot")
        (parse topSummons (.text "servant robot") .absent).state s
      ∧ topSummons.productions[s.item.rule]?
        = some ⟨0, "call", [⟨"$whom", true⟩, ⟨"ATTN", true⟩], .top⟩
      ∧ (parse topSummons (.text "servant robot") .absent).state.chart.tree s = summon := by
  obtain ⟨s, hs⟩ := exists_selected (built_summons.coherent.withStatuses _) candidates_summons
  have hderives := hs.derives
  rw [toWords_summons] at hderives
  obtain ⟨hrule, htree⟩ := mem_derivations_topSummons.1 hderives
  exact ⟨s, hs, production_topSummons.2 (.inl ⟨hrule, rfl⟩), htree⟩

/-- Both words are spelled as they were said. -/
theorem spelling_summons :
    (parse topSummons (.text "servant robot") .absent).state.spelling = ["servant", "robot"] := by
  obtain ⟨s, hs, _, htree⟩ := exists_selected_summons
  rw [hs.spelling, Grammar.spell_eq_zipWith hs.derives, htree, tokenize_summons, summon,
    Tree.leaves_node production_call, Tree.leavesOf_nonterminal _ rfl,
    Tree.leaves_node production_whom, Tree.leavesOf_nonterminal _ rfl,
    Tree.leaves_node production_kind, Tree.leavesOf_terminal _ rfl, Tree.leavesOf_nil,
    Tree.leavesOf_nonterminal _ rfl, Tree.leaves_node production_attention,
    Tree.leavesOf_terminal _ rfl, Tree.leavesOf_nil]
  rfl

/-- The phrase is closed between its kind and the attention phrase. Without closing markers there
are only the marker that opens it and the two pairs. -/
theorem entries_summon (closing : Bool) :
    summon.entries topSummons ["servant", "robot"] closing "call"
      = ["$whom", "AKO=servant"] ++ (if closing then ["$"] else []) ++ ["ATTN=robot"] := by
  have hcall : "call".toList.any Text.isLower = true := by decide
  have hwhom : "$whom".toList.any Text.isLower = true := by decide
  have hkind : ¬"AKO".toList.any Text.isLower = true := by decide
  have hattention : ¬"ATTN".toList.any Text.isLower = true := by decide
  rw [summon, Tree.entries, Grammar.stepsAt_eq production_call, if_pos hcall,
    Tree.entriesOf_nonterminal rfl, Tree.entries, Grammar.stepsAt_eq production_whom, if_pos hwhom,
    Tree.entriesOf_nonterminal rfl, Tree.entries, Grammar.stepsAt_eq production_kind, if_neg hkind,
    Tree.entriesOf_nil, Tree.entriesOf_nonterminal rfl, Tree.entries,
    Grammar.stepsAt_eq production_attention, if_neg hattention, Tree.entriesOf_nil]
  cases closing <;> decide

/-- The two association lists of the call. -/
theorem exists_assocList_summons (closing : Bool) :
    ∃ alist, ((parse topSummons (.text "servant robot") .absent).state.assocList topSummons
        closing).result = .ok alist
      ∧ alist.entries
        = ["$whom", "AKO=servant"] ++ (if closing then ["$"] else []) ++ ["ATTN=robot"] := by
  obtain ⟨s, hs, hp, htree⟩ := exists_selected_summons
  obtain ⟨alist, halist, hentries⟩ := hs.exists_entries (built_summons.coherent.withStatuses _)
    (built_summons.tidy.withStatuses _) hp ⟨by decide, by decide⟩ closing
  rw [htree, spelling_summons, entries_summon] at hentries
  exact ⟨alist, halist, hentries⟩

/-- The bare marker hides the attention phrase behind the kind if the phrase must come first, so the
two ways of closing phrases do not agree there. -/
theorem not_forall_inList_closed :
    ¬∀ (g : Grammar) (sentence : Sentence) (conf : Confidence), g.Built →
      ∀ (status : Nat → Status) (mode : AttentionMode) (closed plain : AssocList),
        let grammar := g.withStatuses status
        let a := (parse grammar sentence conf).state
        (a.assocList grammar true).result = .ok closed →
        (a.assocList grammar false).result = .ok plain →
        Attention.inList closed mode = Attention.inList plain mode := by
  intro h
  obtain ⟨closed, hclosed, hclosedEntries⟩ := exists_assocList_summons true
  obtain ⟨plain, hplain, hplainEntries⟩ := exists_assocList_summons false
  have hsame := h summons (.text "servant robot") .absent built_summons (fun _ => .top) .start closed
    plain hclosed hplain
  -- with the closing marker the lead ends behind the kind, and what follows is not the attention
  -- phrase
  have hmissed : Attention.inList closed .start = false := by
    rw [Attention.inList_start, hclosedEntries, Bool.and_eq_false_iff]
    exact .inr (by decide)
  -- without it the attention phrase is the next entry
  have hheard : Attention.inList plain .start = true := by
    rw [Attention.inList_start, AssocList.hasSlot_eq_any, hplainEntries]
    decide
  rw [hmissed, hheard] at hsame
  cases hsame

/-- In the call only the list without closing markers says that the attention phrase is at the start,
but both say that there is one. -/
theorem inList_closed_iff_summons :
    summons.Built
      ∧ ∃ closed plain,
        ((parse topSummons (.text "servant robot") .absent).state.assocList topSummons true).result
            = .ok closed
          ∧ ((parse topSummons (.text "servant robot") .absent).state.assocList topSummons
            false).result = .ok plain
          ∧ Attention.inList closed .anywhere = true ∧ Attention.inList plain .anywhere = true
          ∧ Attention.inList closed .start ≠ true ∧ Attention.inList plain .start = true := by
  obtain ⟨closed, plain, hclosed, hplain, hiff⟩ :=
    inList_closed_iff built_summons (fun _ => .top) (.text "servant robot") .absent []
  obtain ⟨c, hc, hclosedEntries⟩ := exists_assocList_summons true
  obtain ⟨p, hp, hplainEntries⟩ := exists_assocList_summons false
  obtain rfl : c = closed := Except.ok.inj (hc.symm.trans hclosed)
  obtain rfl : p = plain := Except.ok.inj (hp.symm.trans hplain)
  have hanywhere : Attention.inList p .anywhere = true := by
    rw [Attention.inList, AssocList.hasSlot_eq_any, hplainEntries]
    decide
  have hstart : Attention.inList p .start = true := by
    rw [Attention.inList_start, AssocList.hasSlot_eq_any, hplainEntries]
    decide
  have hcloses : Attention.ClosesKind c.entries :=
    ⟨"AKO=servant", "$", ["ATTN=robot"], by rw [hclosedEntries]; decide, by decide, by decide⟩
  refine ⟨built_summons, c, p, hc, hp, (hiff .anywhere).2 ⟨hanywhere, ?_⟩, hanywhere, ?_, hstart⟩
  · rintro ⟨hmode | hmode, _⟩ <;> cases hmode
  · exact fun hfirst => ((hiff .start).1 hfirst).2 ⟨.inl rfl, hcloses⟩

end Analysis

end Utterance
