import Mathlib.Data.List.Forall2
import Utterance.Proofs.Vocabulary.Edits
import Utterance.Proofs.Vocabulary.Segments

/-!
# What a repair changes

A repair goes through a text in small steps. Each of them is a correction: an unknown word becomes known
by an edit, or letters move between two words, one of them unknown, so that both are known. A word may be
corrected more than once, since a letter may move back across the end of a word that was corrected
before. Whatever the corrections, all gaps stay, a known word stays known, and a word that no correction
covers stays as it is.
-/

namespace Utterance

namespace Vocabulary

variable {v : Vocabulary}

/-! ## Texts before and after an edit -/

/-- The letters of a text without its spaces. -/
def unspaced (text : String) : List Char := text.toList.filter (· != ' ')

/-- How the texts before and after an edit differ: not at all without their spaces, or by two
letters that are swapped, or by one that is put in, or by one that is changed where that is allowed. -/
theorem Edit.texts {old new : List String} (h : v.Edit old new) :
    unspaced (" ".intercalate new) = unspaced (" ".intercalate old)
      ∨ Swapped (" ".intercalate old) (" ".intercalate new)
      ∨ Lengthened (Text.lower (" ".intercalate old)) (" ".intercalate new)
      ∨ v.substitute = true ∧ Altered (Text.lower (" ".intercalate old)) (" ".intercalate new) := by
  have hpair : ∀ first second : String,
      unspaced (" ".intercalate [first, second]) = unspaced (first ++ second) := by
    intro first second
    simp [unspaced]
  cases h with
  | move letters => exact .inl (by rw [hpair, hpair, letters])
  | @split word first second letters =>
    have hone : " ".intercalate [pairText first second] = " ".intercalate [first, second] := by
      simp [pairText]
    exact .inl (by rw [hone, hpair, letters, String.intercalate_singleton])
  | swap letters => exact .inr (.inl letters)
  | lengthen letters => exact .inr (.inr (.inl letters))
  | alter allowed letters => exact .inr (.inr (.inr ⟨allowed, letters⟩))

/-! ## Corrections -/

/-- A correction: the number of the first word that it covers, the words that it covers, and what becomes
of each. -/
structure Correction where
  place : Nat
  old : List String
  new : List String

namespace Correction

/-- A correction as it is recorded. -/
def texts (c : Correction) : String × String := (" ".intercalate c.old, " ".intercalate c.new)

/-- Whether a correction covers the word with a number. -/
def Covers (c : Correction) (i : Nat) : Prop := c.place ≤ i ∧ i < c.place + c.old.length

end Correction

/-- What one correction makes of the segments of a text. -/
inductive Corrects (v : Vocabulary) : List Segment → Correction → List Segment → Prop where
  | within {before after : List Segment} {gap word new : String} (unknown : v.known word = false)
      (edit : v.Edit [word] [new]) :
      Corrects v (before ++ ⟨gap, word⟩ :: after) ⟨before.length, [word], [new]⟩
        (before ++ ⟨gap, new⟩ :: after)
  | across {before after : List Segment} {gap p q first second : String}
      (unknown : v.known p = false ∨ v.known q = false) (edit : v.Edit [p, q] [first, second]) :
      Corrects v (before ++ ⟨gap, p⟩ :: ⟨" ", q⟩ :: after) ⟨before.length, [p, q], [first, second]⟩
        (before ++ ⟨gap, first⟩ :: ⟨" ", second⟩ :: after)

/-- What corrections one after the other make of the segments of a text. -/
inductive CorrectsAll (v : Vocabulary) (segs : List Segment) : List Correction → List Segment → Prop where
  | nil : CorrectsAll v segs [] segs
  | snoc {cs : List Correction} {c : Correction} {mid out : List Segment}
      (earlier : CorrectsAll v segs cs mid) (last : v.Corrects mid c out) :
      CorrectsAll v segs (cs ++ [c]) out

/-- What stays of a segment: the gap, and that the word is known. -/
structure Keeps (v : Vocabulary) (s t : Segment) : Prop where
  gap : t.gap = s.gap
  known : v.known s.word = true → v.known t.word = true

theorem keeps_refl (segs : List Segment) : List.Forall₂ v.Keeps segs segs :=
  List.forall₂_same.2 fun _ _ => ⟨rfl, id⟩

theorem Keeps.trans {s t u : Segment} (h : v.Keeps s t) (h' : v.Keeps t u) : v.Keeps s u :=
  ⟨h'.gap.trans h.gap, fun hknown => h'.known (h.known hknown)⟩

variable {segs mid out : List Segment} {c : Correction} {cs : List Correction}

/-- Two texts in a row that keep their segments keep them together. -/
theorem keeps_trans (h : List.Forall₂ v.Keeps segs mid) (h' : List.Forall₂ v.Keeps mid out) :
    List.Forall₂ v.Keeps segs out := by
  induction h generalizing out with
  | nil =>
    cases h'
    exact .nil
  | cons hfirst _ ih =>
    cases h' with
    | cons hfirst' hrest => exact .cons (hfirst.trans hfirst') (ih hrest)

/-- A correction is an edit of the words that it covers. -/
theorem Corrects.edit (h : v.Corrects segs c out) : v.Edit c.old c.new := by
  cases h with
  | within _ edit => exact edit
  | across _ edit => exact edit

/-- A correction keeps all gaps, and makes no known word unknown. The words that it covers are known
afterwards, and the others stay as they are. -/
theorem Corrects.keeps (h : v.Corrects segs c out) : List.Forall₂ v.Keeps segs out := by
  cases h with
  | within unknown edit =>
    refine List.rel_append (keeps_refl _) (.cons ⟨rfl, fun hknown => ?_⟩ (keeps_refl _))
    rw [unknown] at hknown
    cases hknown
  | across unknown edit =>
    cases edit with
    | move _ known known' =>
      exact List.rel_append (keeps_refl _)
        (.cons ⟨rfl, fun _ => known⟩ (.cons ⟨rfl, fun _ => known'⟩ (keeps_refl _)))

/-- Replacing a part of a list by one of the same length leaves what is outside of that part. -/
theorem getElem?_replaced {before after : List Segment} (old new : List Segment)
    (hlength : new.length = old.length) {i : Nat}
    (hi : ¬(before.length ≤ i ∧ i < before.length + old.length)) :
    (before ++ (new ++ after))[i]? = (before ++ (old ++ after))[i]? := by
  by_cases hbefore : i < before.length
  · rw [List.getElem?_append_left hbefore, List.getElem?_append_left hbefore]
  · have hafter : old.length ≤ i - before.length := by omega
    rw [List.getElem?_append_right (by omega), List.getElem?_append_right (by omega),
      List.getElem?_append_right (by omega), List.getElem?_append_right hafter, hlength]

/-- A correction leaves the segments that it does not cover. -/
theorem Corrects.getElem?_eq (h : v.Corrects segs c out) {i : Nat} (hi : ¬c.Covers i) :
    out[i]? = segs[i]? := by
  cases h with
  | @within before after gap word new =>
    exact getElem?_replaced [⟨gap, word⟩] [⟨gap, new⟩] rfl hi
  | @across before after gap p q first second =>
    exact getElem?_replaced [⟨gap, p⟩, ⟨" ", q⟩] [⟨gap, first⟩, ⟨" ", second⟩] rfl hi

/-- Each of several corrections is an edit. -/
theorem CorrectsAll.edit (h : v.CorrectsAll segs cs out) : ∀ c ∈ cs, v.Edit c.old c.new := by
  induction h with
  | nil => simp
  | snoc _ last ih =>
    intro c hc
    rcases List.mem_append.1 hc with hc | hc
    · exact ih c hc
    · rw [List.mem_singleton.1 hc]
      exact last.edit

/-- Corrections one after the other keep all gaps and all known words. -/
theorem CorrectsAll.keeps (h : v.CorrectsAll segs cs out) : List.Forall₂ v.Keeps segs out := by
  induction h with
  | nil => exact keeps_refl _
  | snoc _ last ih => exact keeps_trans ih last.keeps

/-- Segments that none of several corrections covers are left as they were. -/
theorem CorrectsAll.getElem?_eq (h : v.CorrectsAll segs cs out) {i : Nat}
    (hi : ∀ c ∈ cs, ¬c.Covers i) : out[i]? = segs[i]? := by
  induction h with
  | nil => rfl
  | snoc _ last ih =>
    rw [last.getElem?_eq (hi _ (by simp)), ih fun c hc => hi c (by simp [hc])]

/-! ## Repairing -/

/-- Whether a repair has come so far by corrections of the segments of a text, with some of them left. -/
def Tracks (v : Vocabulary) (segs : List Segment) (r : Repaired) (left : List Segment) : Prop :=
  ∃ cs, v.CorrectsAll segs cs (r.done.reverse ++ left) ∧ r.changes = cs.map Correction.texts

variable {r r' : Repaired} {s n : Segment} {left : List Segment}

/-- Passing over a segment needs no correction. -/
theorem Tracks.keep (h : v.Tracks segs r (s :: left)) : v.Tracks segs (r.keep s) left := by
  obtain ⟨cs, hcs, hchanges⟩ := h
  refine ⟨cs, ?_, hchanges⟩
  simpa [Repaired.keep] using hcs

/-- An unknown segment that goes with the one before it: the correction covers the last segment that
is done and the one at hand. -/
theorem Tracks.repairBefore (h : v.Tracks segs r (s :: left)) (hunknown : v.known s.word = false)
    (hrepair : v.repairBefore r s = some r') : v.Tracks segs r' left := by
  obtain ⟨cs, hcs, hchanges⟩ := h
  obtain ⟨p, rest, first, second, hdone, _, hgap, hmove, hdone', hchanges'⟩ :=
    repairBefore_eq_some hrepair
  have hlast : v.Corrects (r.done.reverse ++ s :: left)
      ⟨rest.reverse.length, [p.word, s.word], [first, second]⟩ (r'.done.reverse ++ left) := by
    have hstep := @Corrects.across v rest.reverse left p.gap _ _ _ _ (.inr hunknown) (edit_of_move hmove)
    rw [← hgap] at hstep
    simpa [hdone, hdone'] using hstep
  exact ⟨_, hcs.snoc hlast, by rw [hchanges', hchanges, List.map_append]; rfl⟩

/-- An unknown segment that goes with the one after it: both are done after the correction. -/
theorem Tracks.repairAfter (h : v.Tracks segs r (s :: n :: left)) (hunknown : v.known s.word = false)
    (hrepair : v.repairAfter r s n = some r') : v.Tracks segs r' left := by
  obtain ⟨cs, hcs, hchanges⟩ := h
  obtain ⟨hgap, _, first, second, hmove, hdone, hchanges'⟩ := repairAfter_eq_some hrepair
  have hlast : v.Corrects (r.done.reverse ++ s :: n :: left)
      ⟨r.done.reverse.length, [s.word, n.word], [first, second]⟩ (r'.done.reverse ++ left) := by
    have hstep := @Corrects.across v r.done.reverse left s.gap _ _ _ _ (.inl hunknown)
      (edit_of_move hmove)
    rw [← hgap] at hstep
    simpa [hdone] using hstep
  exact ⟨_, hcs.snoc hlast, by rw [hchanges', hchanges, List.map_append]; rfl⟩

/-- An unknown segment that is repaired on its own: there is a correction of one word, or none, and
then the segment stays. -/
theorem Tracks.repairWithin (hbuilt : v.Built) (h : v.Tracks segs r (s :: left)) (hne : s.word ≠ "")
    (hunknown : v.known s.word = false) : v.Tracks segs (v.repairWithin r s) left := by
  unfold Vocabulary.repairWithin
  cases hmend : v.mend s.word with
  | none => exact h.keep
  | some word =>
    obtain ⟨cs, hcs, hchanges⟩ := h
    have hlast : v.Corrects (r.done.reverse ++ s :: left) ⟨r.done.reverse.length, [s.word], [word]⟩
        (((r.keep ⟨s.gap, word⟩).change s.word word).done.reverse ++ left) := by
      have hstep := @Corrects.within v r.done.reverse left s.gap _ _ hunknown
        (edit_of_mend hbuilt hne hmend)
      simpa [Repaired.keep, Repaired.change] using hstep
    exact ⟨_, hcs.snoc hlast, by
      simp [Repaired.keep, Repaired.change, hchanges, Correction.texts]⟩

/-- A repair comes to its end by corrections. The induction is along the repair: whatever it does
with the segment at hand is a correction, or passes over it. -/
theorem Tracks.repairFrom (hbuilt : v.Built) (h : v.Tracks segs r left) :
    v.Tracks segs (v.repairFrom r left) [] := by
  -- a segment that is not passed over has a word, and an unknown one
  have hlooked : ∀ {s : Segment}, ¬(s.word.isEmpty || v.known s.word) = true →
      s.word ≠ "" ∧ v.known s.word = false := by
    intro s hcondition
    simpa using hcondition
  fun_induction Vocabulary.repairFrom v r left with
  | case1 => exact h
  -- the last segment is passed over
  | case2 r s hcondition => exact h.keep
  -- the last segment goes with the one before it, or is looked at on its own
  | case3 r s hcondition =>
    obtain ⟨hne, hunknown⟩ := hlooked hcondition
    cases hrepair : v.repairBefore r s with
    | some r' => exact h.repairBefore hunknown hrepair
    | none => exact h.repairWithin hbuilt hne hunknown
  -- a segment is passed over
  | case4 r s n rest hcondition ih => exact ih h.keep
  -- it goes with the segment before it
  | case5 r s n rest hcondition r' hrepair ih =>
    exact ih (h.repairBefore (hlooked hcondition).2 hrepair)
  -- it goes with the segment after it, which is not looked at again
  | case6 r s n rest hcondition _ r' hrepair ih =>
    exact ih (h.repairAfter (hlooked hcondition).2 hrepair)
  -- it is looked at on its own
  | case7 r s n rest hcondition _ _ ih =>
    obtain ⟨hne, hunknown⟩ := hlooked hcondition
    exact ih (h.repairWithin hbuilt hne hunknown)

/-- A repair only makes small edits into known words. Corrections one after the other lead from the
segments of a text to those of the result, and they are what is recorded. Each is an edit that makes the
words that it covers known: letters move between two words or a word is split, and the text is the same
without its spaces, or two letters of a word are swapped, or a letter is put in, or one is changed where
that is allowed. All gaps stay, known words stay known, and words that no correction covers stay as they
are. -/
theorem repair_corrects (hbuilt : v.Built) (text : String) :
    let o := v.repair (some text)
    let segs := Segment.ofText text
    ∃ cs out, v.CorrectsAll segs cs out ∧ Segment.join segs = text
      ∧ o.state.corrections = cs.map Correction.texts
      ∧ o.result = .ok (if cs.isEmpty then none else some (Segment.join out))
      ∧ (∀ c ∈ cs, v.Edit c.old c.new
        ∧ (unspaced c.texts.2 = unspaced c.texts.1 ∨ Swapped c.texts.1 c.texts.2
          ∨ Lengthened (Text.lower c.texts.1) c.texts.2
          ∨ v.substitute = true ∧ Altered (Text.lower c.texts.1) c.texts.2))
      ∧ List.Forall₂ v.Keeps segs out
      ∧ ∀ i, (∀ c ∈ cs, ¬c.Covers i) → out[i]? = segs[i]? := by
  intro o segs
  have hstart : v.Tracks segs {} segs := ⟨[], .nil, rfl⟩
  obtain ⟨cs, hcs, hchanges⟩ := hstart.repairFrom hbuilt
  rw [List.append_nil] at hcs
  refine ⟨cs, _, hcs, Segment.join_ofText text, ?_, ?_, fun c hc => ⟨hcs.edit c hc, (hcs.edit c hc).texts⟩,
    hcs.keeps, fun i hi => hcs.getElem?_eq hi⟩
  · simp only [o, repair, ← hchanges]
    split <;> rfl
  -- there is a result just if something was changed
  · have hempty : cs.isEmpty = (v.repairFrom {} segs).changes.isEmpty := by
      rw [hchanges, List.isEmpty_map]
    simp only [o, repair, hempty]
    split <;> simp_all [segs]

/-- Letters are swapped, and then a letter moves between the next two words. -/
theorem repair_corrects_hwat :
    let v := ofWords ["what", "i", "see"]
    v.Built ∧ (v.repair (some "Hwat, is ee")).result = .ok (some "wHat, i see")
      ∧ ∃ cs out, v.CorrectsAll (Segment.ofText "Hwat, is ee") cs out
        ∧ cs.map Correction.texts = [("Hwat", "wHat"), ("is ee", "i see")]
        ∧ ∀ c ∈ cs, v.Edit c.old c.new := by
  intro v
  have hresult : (v.repair (some "Hwat, is ee")).result = .ok (some "wHat, i see") := by decide +kernel
  obtain ⟨cs, out, hcs, _, hcorrections, _, hedits, _⟩ := repair_corrects (built_ofWords _) "Hwat, is ee"
  refine ⟨built_ofWords _, hresult, cs, out, hcs, ?_, fun c hc => (hedits c hc).1⟩
  rw [← hcorrections]
  decide +kernel

end Vocabulary

end Utterance
