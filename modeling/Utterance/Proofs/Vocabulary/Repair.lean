import Mathlib.Data.List.Forall2
import Utterance.Proofs.Vocabulary.Edits
import Utterance.Proofs.Vocabulary.Segments

/-!
# Repairs that are repeated

What a repair leaves of a text is cut into the words that it left there, so a second repair starts where
the first one ended. No word that is still unknown can be mended then. But a letter may move across the
boundary between such a word and its neighbour, if the neighbour was repaired after the word or was
split off before it. A second repair changes nothing exactly if no letter can.
-/

namespace Utterance.Vocabulary

variable {v : Vocabulary} {word : String}

/-! ## What a repair leaves -/

/-- A word that a repair leaves where it is: none, a known one, or one that cannot be mended. -/
def Settled (v : Vocabulary) (word : String) : Prop :=
  word = "" ∨ v.known word = true ∨ v.mend word = none

/-- What becomes of a segment: another word, none if there was none, or two words. -/
inductive Became (v : Vocabulary) (s : Segment) : Segment → Prop where
  | word {word : String} (parts : ∀ c ∈ word.toList, Segment.isWordPart c = true)
      (empty : word = "" ↔ s.word = "") (settled : v.Settled word) : Became v s ⟨s.gap, word⟩
  | pair {a b : String} (some : s.word ≠ "") (first : v.Sound a) (second : v.Sound b) :
      Became v s ⟨s.gap, pairText a b⟩

theorem Sound.became {s : Segment} (h : v.Sound word) (hs : s.word ≠ "") : v.Became s ⟨s.gap, word⟩ :=
  .word h.parts (iff_of_false h.ne_empty hs) (.inr (.inl h.known))

variable {r r' : Repaired} {s n : Segment} {before : List Segment}

/-- A segment that is passed over becomes itself. -/
theorem became_keep (hs : s.Clean) (hsettled : v.Settled s.word)
    (h : List.Forall₂ v.Became before r.done) :
    List.Forall₂ v.Became (s :: before) (r.keep s).done :=
  .cons (.word hs.word .rfl hsettled) h

/-- A repair with the word before makes sound words of both. The word before was done already, so it
is seen as it was left: a single word, since no letter moves across the end of a split one. -/
theorem became_repairBefore (hspelled : v.Spelled) (hs : s.Clean) (hne : s.word ≠ "")
    (hrepair : v.repairBefore r s = some r') (h : List.Forall₂ v.Became before r.done) :
    List.Forall₂ v.Became (s :: before) r'.done := by
  obtain ⟨p, rest, first, second, hdone, hp, _, hmove, hdone', _⟩ := repairBefore_eq_some hrepair
  rw [hdone] at h
  rw [hdone']
  cases h with
  | @cons b _ before _ hbecame hrest =>
    cases hbecame with
    | @word word parts empty settled =>
      obtain ⟨hfirst, hsecond⟩ := move_eq_some parts hs.word hmove
      exact .cons (hsecond.became hne) (.cons (hfirst.became fun hb => hp (empty.2 hb)) hrest)
    | pair _ _ hb =>
      -- nothing moves across the end of a word that was split
      obtain ⟨hright, hleft⟩ := move_pairText hspelled hb.ne_empty s.word
      rw [hright, hleft] at hmove
      rcases hmove with hmove | hmove <;> cases hmove

/-- A repair with the word after makes sound words of both. -/
theorem became_repairAfter (hs : s.Clean) (hne : s.word ≠ "") (hn : n.Clean)
    (hrepair : v.repairAfter r s n = some r') (h : List.Forall₂ v.Became before r.done) :
    List.Forall₂ v.Became (n :: s :: before) r'.done := by
  obtain ⟨_, hnext, first, second, hmove, hdone, _⟩ := repairAfter_eq_some hrepair
  obtain ⟨hfirst, hsecond⟩ := move_eq_some hs.word hn.word hmove
  rw [hdone]
  exact .cons (hsecond.became hnext) (.cons (hfirst.became hne) h)

/-- A repair of a single word makes a sound word or two of it, or leaves it where it cannot be
mended. -/
theorem became_repairWithin (hbuilt : v.Built) (hspelled : v.Spelled) (hs : s.Clean)
    (hne : s.word ≠ "") (h : List.Forall₂ v.Became before r.done) :
    List.Forall₂ v.Became (s :: before) (v.repairWithin r s).done := by
  unfold repairWithin
  cases hmend : v.mend s.word with
  | none => exact became_keep hs (.inr (.inr hmend)) h
  | some word =>
    rcases mend_eq_some hbuilt hspelled hne hs.word hmend with hword | ⟨a, b, rfl, ha, hb⟩
    · exact .cons (hword.became hne) h
    · exact .cons (.pair hne ha hb) h

/-- A repair leaves one segment for each, with the same gap. The induction is along the repair, for
any segments that are done already. -/
theorem became_repairFrom (hbuilt : v.Built) (hspelled : v.Spelled) {segs : List Segment}
    (hclean : ∀ s ∈ segs, s.Clean) (h : List.Forall₂ v.Became before r.done) :
    List.Forall₂ v.Became (segs.reverse ++ before) (v.repairFrom r segs).done := by
  have hkept : ∀ {s : Segment}, (s.word.isEmpty || v.known s.word) = true → v.Settled s.word := by
    intro s hcondition
    rw [Bool.or_eq_true, String.isEmpty_iff] at hcondition
    exact hcondition.imp_right .inl
  have hunknown : ∀ {s : Segment}, ¬(s.word.isEmpty || v.known s.word) = true → s.word ≠ "" := by
    intro s hcondition hempty
    simp [hempty] at hcondition
  fun_induction repairFrom v r segs generalizing before with
  | case1 => exact h
  -- the last segment is passed over
  | case2 r s hcondition => exact became_keep (hclean s (List.mem_singleton.2 rfl)) (hkept hcondition) h
  -- the last segment goes with the one before it, or is looked at on its own
  | case3 r s hcondition =>
    have hs := hclean s (List.mem_singleton.2 rfl)
    cases hrepair : v.repairBefore r s with
    | some r' => exact became_repairBefore hspelled hs (hunknown hcondition) hrepair h
    | none => exact became_repairWithin hbuilt hspelled hs (hunknown hcondition) h
  -- a segment is passed over
  | case4 r s n rest hcondition ih =>
    obtain ⟨hs, hrest⟩ := List.forall_mem_cons.1 hclean
    have := ih hrest (became_keep hs (hkept hcondition) h)
    simpa using this
  -- it goes with the segment before it
  | case5 r s n rest hcondition r' hrepair ih =>
    obtain ⟨hs, hrest⟩ := List.forall_mem_cons.1 hclean
    have := ih hrest (became_repairBefore hspelled hs (hunknown hcondition) hrepair h)
    simpa using this
  -- it goes with the segment after it, which is not looked at again
  | case6 r s n rest hcondition _ r' hrepair ih =>
    obtain ⟨hs, hrest⟩ := List.forall_mem_cons.1 hclean
    obtain ⟨hn, hrest⟩ := List.forall_mem_cons.1 hrest
    have := ih hrest (became_repairAfter hs (hunknown hcondition) hn hrepair h)
    simpa using this
  -- it is looked at on its own
  | case7 r s n rest hcondition _ _ ih =>
    obtain ⟨hs, hrest⟩ := List.forall_mem_cons.1 hclean
    have := ih hrest (became_repairWithin hbuilt hspelled hs (hunknown hcondition) h)
    simpa using this

/-- A sound word behind a space is a clean segment. -/
theorem Sound.clean (h : v.Sound word) : Segment.Clean ⟨" ", word⟩ := by
  refine ⟨fun c hc => ?_, h.parts, fun _ => h.ne_empty⟩
  have hc : c ∈ " ".toList := hc
  rw [show " ".toList = [' '] by decide, List.mem_singleton] at hc
  rw [hc]
  decide

/-- What one segment became can be cut into segments with a settled word each, the first of them
with the gap of the segment, and what comes after the segment can come after them. A pair of words
is cut at the space between them. -/
theorem Became.exists_cut {b s : Segment} {segs : List Segment} (h : v.Became b s)
    (hb : Segment.Clean b) (hsegs : Segment.Cut segs) (hgap : ∀ t ∈ segs.head?, t.gap ≠ "")
    (hword : segs ≠ [] → b.word ≠ "") :
    ∃ first, Segment.Cut (first ++ segs) ∧ Segment.join first = s.gap ++ s.word
      ∧ first.head?.map (·.gap) = some b.gap ∧ ∀ t ∈ first, v.Settled t.word := by
  cases h with
  -- one word in the place of another leaves one segment; a pair leaves two, with a blank between
  -- them
  | @word word parts empty settled =>
    have hclean : Segment.Clean ⟨b.gap, word⟩ :=
      ⟨hb.gap, parts, fun hgap hword => hb.text hgap (empty.1 hword)⟩
    have hword' : segs ≠ [] → word ≠ "" := fun hne hempty => hword hne (empty.1 hempty)
    refine ⟨[⟨b.gap, word⟩], hsegs.cons hclean hword' hgap, ?_, rfl, by simpa using settled⟩
    rw [← String.toList_inj]
    simp [Segment.toList_join]
  | @pair x y some first second =>
    have hfirst : Segment.Clean ⟨b.gap, x⟩ := ⟨hb.gap, first.parts, fun _ => first.ne_empty⟩
    have hsecond := hsegs.cons second.clean (fun _ => second.ne_empty) hgap
    refine ⟨[⟨b.gap, x⟩, ⟨" ", y⟩], hsecond.cons hfirst (fun _ => first.ne_empty) ?_, ?_, rfl, ?_⟩
    · intro t ht
      rw [← Option.some.inj ht]
      show " " ≠ ""
      decide
    · rw [← String.toList_inj]
      simp [Segment.toList_join, pairText]
    · refine List.forall_mem_cons.2 ⟨.inr (.inl first.known), ?_⟩
      exact List.forall_mem_singleton.2 (.inr (.inl second.known))

/-- What a repair leaves can be cut into segments with a settled word each, the first of them with
the first gap. The induction starts from the last segment, since what a word may be followed by
depends on the gap after it. -/
theorem exists_cut {after : List Segment} (hcut : Segment.Cut before)
    (h : List.Forall₂ v.Became before after) :
    ∃ segs, Segment.Cut segs ∧ Segment.join segs = Segment.join after
      ∧ segs.head?.map (·.gap) = before.head?.map (·.gap) ∧ ∀ s ∈ segs, v.Settled s.word := by
  induction h with
  | nil => exact ⟨[], trivial, rfl, rfl, by simp⟩
  | @cons b s before after hbecame hrest ih =>
    obtain ⟨segs, hsegs, hjoin, hhead, hsettled⟩ := ih hcut.tail
    -- the others begin with the gap that they began with, and are none if there were none
    have hgap : ∀ t ∈ segs.head?, t.gap ≠ "" := by
      intro t ht
      rw [Option.mem_def.1 ht, Option.map_some] at hhead
      cases before with
      | nil => cases hhead
      | cons c before =>
        rw [Option.some.inj hhead]
        exact hcut.2.2.1
    have hword : segs ≠ [] → b.word ≠ "" := by
      intro hsegs
      cases before with
      | nil =>
        rw [List.head?_nil, Option.map_none, Option.map_eq_none_iff, List.head?_eq_none_iff] at hhead
        exact absurd hhead hsegs
      | cons c before => exact hcut.2.1
    obtain ⟨first, hfirst, htext, hfirstHead, hfirstSettled⟩ :=
      hbecame.exists_cut (hcut.clean b (List.mem_cons_self ..)) hsegs hgap hword
    refine ⟨first ++ segs, hfirst, ?_, ?_, ?_⟩
    · rw [← String.toList_inj, Segment.toList_join, List.flatMap_append, ← Segment.toList_join,
        ← Segment.toList_join, htext, hjoin, Segment.toList_join, Segment.toList_join,
        List.flatMap_cons, String.toList_append]
    · obtain ⟨t, ht, hgap⟩ := Option.map_eq_some_iff.1 hfirstHead
      rw [List.head?_append, ht, Option.some_or, Option.map_some, hgap]
      rfl
    · exact List.forall_mem_append.2 ⟨hfirstSettled, hsettled⟩

/-! ## A second repair -/

/-- A repair only adds changes to those that it has made, whatever it does with a segment. -/
theorem changes_prefix_repairFrom (r : Repaired) (segs : List Segment) :
    r.changes <+: (v.repairFrom r segs).changes := by
  have hwithin : ∀ (r : Repaired) (s : Segment), r.changes <+: (v.repairWithin r s).changes := by
    intro r s
    unfold repairWithin
    split
    · exact List.prefix_append _ _
    · exact List.prefix_refl _
  -- along the repair, whatever it does with a segment
  fun_induction repairFrom v r segs with
  | case1 | case2 => exact List.prefix_refl _
  | case3 r s =>
    cases hrepair : v.repairBefore r s with
    | some r' =>
      obtain ⟨_, _, _, _, _, _, _, _, _, hchanges⟩ := repairBefore_eq_some hrepair
      rw [Option.getD_some, hchanges]
      exact List.prefix_append _ _
    | none => exact hwithin r s
  | case4 r s n rest _ ih => exact ih
  | case5 r s n rest _ r' hrepair ih =>
    obtain ⟨_, _, _, _, _, _, _, _, _, hchanges⟩ := repairBefore_eq_some hrepair
    rw [hchanges] at ih
    exact (List.prefix_append _ _).trans ih
  | case6 r s n rest _ _ r' hrepair ih =>
    obtain ⟨_, _, _, _, _, _, hchanges⟩ := repairAfter_eq_some hrepair
    rw [hchanges] at ih
    exact (List.prefix_append _ _).trans ih
  | case7 r s n rest _ _ _ ih => exact (hwithin r s).trans ih

/-- After a change there are more changes in the end. -/
theorem changes_ne_of_append {r r' : Repaired} {change : String × String}
    (h : r'.changes = r.changes ++ [change]) (segs : List Segment) :
    (v.repairFrom r' segs).changes ≠ r.changes := by
  intro hsame
  have hprefix := (changes_prefix_repairFrom (v := v) r' segs).length_le
  rw [hsame, h, List.length_append, List.length_singleton] at hprefix
  omega

/-- No letter can move across the boundary between two neighbours of which one is not known. -/
def Quiet (v : Vocabulary) (p q : Segment) : Prop :=
  v.known p.word = false ∨ v.known q.word = false → v.Stuck p q

instance (p q : Segment) : Decidable (v.Quiet p q) :=
  inferInstanceAs (Decidable (v.known p.word = false ∨ v.known q.word = false → v.Stuck p q))

/-- Whether segments can come after others: the first of them is known, or no letter can move between
it and the last of the others. -/
def Leads (v : Vocabulary) (done segs : List Segment) : Prop :=
  ∀ p ∈ done.head?, ∀ s ∈ segs.head?, v.known s.word = false → v.Stuck p s

/-- The last segment that is done leads to the first one that is left, if that one is known or no
letter can move between the two. -/
theorem leads_cons {p s : Segment} {done segs : List Segment} :
    v.Leads (p :: done) (s :: segs) ↔ (v.known s.word = false → v.Stuck p s) := by
  simp [Leads]

/-- A word that is not looked at comes after any others. -/
theorem leads_of_passed (h : (s.word.isEmpty || v.known s.word) = true) (done segs : List Segment) :
    v.Leads done (s :: segs) := by
  rw [Bool.or_eq_true, String.isEmpty_iff] at h
  intro p _ t ht hunknown _ _ ht'
  obtain rfl := Option.some.inj ht
  rcases h with hempty | hknown
  · exact absurd hempty ht'
  · rw [hknown] at hunknown
    cases hunknown

/-- What comes after a word that is not looked at need only be looked at itself. -/
theorem quiet_iff_of_passed (h : (s.word.isEmpty || v.known s.word) = true) (n : Segment) :
    v.Quiet s n ↔ (v.known n.word = false → v.Stuck s n) := by
  rw [Bool.or_eq_true, String.isEmpty_iff] at h
  refine ⟨fun hquiet hunknown => hquiet (.inr hunknown), fun hstuck hunknown => ?_⟩
  rcases h with hempty | hknown
  · exact fun _ hs => absurd hempty hs
  · exact hstuck (hunknown.resolve_left (by rw [hknown]; exact Bool.noConfusion))

/-- A word that is not known comes after others if it does not go together with the last of them. -/
theorem leads_iff {segs : List Segment} (hs : s.word ≠ "") (hunknown : v.known s.word = false) :
    v.Leads r.done (s :: segs) ↔ v.repairBefore r s = none := by
  rw [repairBefore_eq_none_iff hs]
  simp [Leads, hunknown]

/-- A settled word that is looked at is not known and cannot be mended, so by itself it is kept. -/
theorem Settled.of_looked_at (h : v.Settled s.word)
    (hlooked : ¬(s.word.isEmpty || v.known s.word) = true) :
    s.word ≠ "" ∧ v.known s.word = false ∧ ∀ r : Repaired, v.repairWithin r s = r.keep s := by
  rw [Bool.or_eq_true, String.isEmpty_iff, not_or, Bool.not_eq_true] at hlooked
  have hmend : v.mend s.word = none :=
    (h.resolve_left hlooked.1).resolve_left (by rw [hlooked.2]; exact Bool.false_ne_true)
  exact ⟨hlooked.1, hlooked.2, fun r => by rw [repairWithin, hmend]⟩

/-- Segments with settled words are left as they are exactly if no letter can move across a boundary
next to a word that is not known. -/
theorem changes_repairFrom_eq_iff {segs : List Segment} (hsettled : ∀ s ∈ segs, v.Settled s.word) :
    (v.repairFrom r segs).changes = r.changes ↔ segs.IsChain v.Quiet ∧ v.Leads r.done segs := by
  fun_induction repairFrom v r segs with
  | case1 => simp [Leads]
  -- the last segment is passed over
  | case2 r s hcondition =>
    exact iff_of_true rfl ⟨List.IsChain.singleton s, leads_of_passed hcondition _ _⟩
  -- the last segment goes with the one before it, or is looked at on its own
  | case3 r s hcondition =>
    obtain ⟨hs, hknown, hwithin⟩ := (hsettled s (List.mem_singleton.2 rfl)).of_looked_at hcondition
    rw [leads_iff hs hknown]
    cases hrepair : v.repairBefore r s with
    | some r' =>
      obtain ⟨_, _, _, _, _, _, _, _, _, hchanges⟩ := repairBefore_eq_some hrepair
      exact iff_of_false (changes_ne_of_append (v := v) hchanges []) fun h => nomatch h.2
    | none =>
      rw [Option.getD_none, hwithin]
      exact iff_of_true rfl ⟨List.IsChain.singleton s, rfl⟩
  -- a segment is passed over
  | case4 r s n rest hcondition ih =>
    rw [List.isChain_cons_cons, and_iff_left (leads_of_passed hcondition _ _), and_comm,
      quiet_iff_of_passed hcondition]
    have ih := ih (List.forall_mem_cons.1 hsettled).2
    rw [Repaired.keep, leads_cons] at ih
    exact ih
  -- it goes with the segment before it
  | case5 r s n rest hcondition r' hrepair ih =>
    obtain ⟨hs, hknown, _⟩ := (hsettled s (List.mem_cons_self ..)).of_looked_at hcondition
    obtain ⟨_, _, _, _, _, _, _, _, _, hchanges⟩ := repairBefore_eq_some hrepair
    rw [leads_iff hs hknown, hrepair]
    exact iff_of_false (changes_ne_of_append hchanges _) fun h => nomatch h.2
  -- it goes with the segment after it, which is not looked at again
  | case6 r s n rest hcondition _ r' hrepair ih =>
    obtain ⟨hs, hknown, _⟩ := (hsettled s (List.mem_cons_self ..)).of_looked_at hcondition
    obtain ⟨_, _, _, _, _, _, hchanges⟩ := repairAfter_eq_some hrepair
    refine iff_of_false (changes_ne_of_append hchanges _) fun h => ?_
    have hstuck := (List.isChain_cons_cons.1 h.1).1 (.inl hknown)
    rw [(repairAfter_eq_none_iff hs).2 hstuck] at hrepair
    cases hrepair
  -- it is looked at on its own
  | case7 r s n rest hcondition hbefore hafter ih =>
    obtain ⟨hs, hknown, hwithin⟩ := (hsettled s (List.mem_cons_self ..)).of_looked_at hcondition
    have hstuck : v.Stuck s n := (repairAfter_eq_none_iff hs).1 hafter
    have ih := ih (List.forall_mem_cons.1 hsettled).2
    rw [hwithin, Repaired.keep, leads_cons, and_iff_left fun _ => hstuck] at ih
    have hquiet : v.Quiet s n := fun _ => hstuck
    rw [hwithin, leads_iff hs hknown, List.isChain_cons_cons, and_iff_left hbefore,
      and_iff_right hquiet]
    exact ih

/-- A repair gives no text exactly if it changes nothing. -/
theorem result_repair_eq_none_iff {text : String} :
    (v.repair (some text)).result = .ok none
      ↔ (v.repairFrom {} (Segment.ofText text)).changes = [] := by
  simp only [repair]
  split
  · rename_i hempty
    exact iff_of_true rfl (List.isEmpty_iff.1 hempty)
  · rename_i hchanged
    refine iff_of_false (fun hnone => by cases hnone) fun hempty => hchanged ?_
    rw [hempty]
    rfl

/-- A repaired text is put together from what the repair leaves, and the vocabulary only knows what
was replaced besides. -/
theorem repair_eq_some {text fixed : String} (h : (v.repair (some text)).result = .ok (some fixed)) :
    fixed = Segment.join (v.repairFrom {} (Segment.ofText text)).done.reverse
      ∧ ∃ corrections, (v.repair (some text)).state = { v with corrections } := by
  simp only [repair] at h ⊢
  split at h
  · cases h
  · rename_i hchanged
    cases h
    exact ⟨rfl, _, by rw [if_neg hchanged]⟩

/-- A second repair changes nothing exactly if no letter can move across the boundary between two
neighbouring words of the repaired text of which one is not known, for a vocabulary whose words have no
other characters than words of a text. -/
theorem repair_again_iff (hbuilt : v.Built) (hspelled : v.Spelled) {text fixed : String}
    (hfixed : (v.repair (some text)).result = .ok (some fixed)) :
    ((v.repair (some text)).state.repair (some fixed)).result = .ok none
      ↔ (Segment.ofText fixed).IsChain v.Quiet := by
  have hcut := Segment.cut_ofText text
  have hbecame : List.Forall₂ v.Became (Segment.ofText text)
      (v.repairFrom {} (Segment.ofText text)).done.reverse := by
    have hdone := became_repairFrom (r := {}) hbuilt hspelled hcut.clean .nil
    rw [List.append_nil] at hdone
    exact List.forall₂_reverse_iff.1 (by rw [List.reverse_reverse]; exact hdone)
  obtain ⟨segs, hsegs, hjoin, _, hsettled⟩ := exists_cut hcut hbecame
  obtain ⟨htext, corrections, hstate⟩ := repair_eq_some hfixed
  -- the second repair starts from the segments that the first one left
  have hsame : Segment.ofText fixed = segs := by
    rw [htext, ← hjoin, Segment.ofText_join hsegs]
  rw [result_repair_eq_none_iff, hstate, hsame]
  have hagain := changes_repairFrom_eq_iff (v := { v with corrections }) (r := {}) hsettled
  have hleads : Leads { v with corrections } [] segs := fun _ hp => nomatch hp
  rw [hagain, and_iff_left hleads]
  rfl

/-- The first word cannot be mended, and no letter can move between it and the next one. -/
theorem repair_again_iff_hwat :
    let v := ofWords ["what", "is", "the"]
    v.Built ∧ v.Spelled
      ∧ (v.repair (some "zzz is hwat")).result = .ok (some "zzz is what")
      ∧ (Segment.ofText "zzz is what").IsChain v.Quiet
      ∧ ((v.repair (some "zzz is hwat")).state.repair (some "zzz is what")).result = .ok none := by
  intro v
  have hspelled : v.Spelled := spelled_iff.2 (by decide +kernel)
  have hfixed : (v.repair (some "zzz is hwat")).result = .ok (some "zzz is what") := by decide +kernel
  have hquiet : (Segment.ofText "zzz is what").IsChain v.Quiet := by decide +kernel
  exact ⟨built_ofWords _, hspelled, hfixed, hquiet,
    (repair_again_iff (built_ofWords _) hspelled hfixed).2 hquiet⟩

/-- A second repair may change what the first one left: a letter moves between an unknown word and the
word after it, that was repaired later, or the word before it, that was split off, or a stored word with
a blank in it is read as two. -/
theorem repair_again_changes :
    let borrowed := ofWords ["she", "was", "as"]
    let cut := ofWords ["is", "the", "then", "to"]
    let spaced := ofWords ["a sa", "as"]
    (borrowed.Built ∧ (borrowed.repair (some "shew sa")).result = .ok (some "shew as")
        ∧ ((borrowed.repair (some "shew sa")).state.repair (some "shew as")).result
          = .ok (some "she was"))
      ∧ (cut.Built ∧ (cut.repair (some "isthe nto")).result = .ok (some "is the nto")
        ∧ ((cut.repair (some "isthe nto")).state.repair (some "is the nto")).result
          = .ok (some "is then to"))
      ∧ (spaced.Built ∧ (spaced.repair (some "asa")).result = .ok (some "a sa")
        ∧ ((spaced.repair (some "asa")).state.repair (some "a sa")).result = .ok (some "as as")) := by
  intro borrowed cut spaced
  refine ⟨⟨built_ofWords _, ?_⟩, ⟨built_ofWords _, ?_⟩, ⟨built_ofWords _, ?_⟩⟩
  · decide +kernel
  · decide +kernel
  · decide +kernel

end Utterance.Vocabulary
