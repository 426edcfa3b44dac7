import Utterance.Proofs.AssocList.Omission
import Utterance.Proofs.Text.Casing
import Utterance.SpeechAct

/-!
# What a speech act does not depend on

A bare marker closes a phrase, and the marker of an attention phrase only wraps what is said. Every test
of a classification is blind to them: a search for a slot passes markers over, the introduction is a
marker of another name, and the markers that decide are those with a name that is not that of an
attention phrase. So an association list stands for the same act without them.
-/

namespace Utterance

namespace SpeechAct

open AssocList (Omits isClosing isMarker)

/-- Whether an entry only closes a phrase or wraps an attention phrase. -/
def isTransparent (entry : String) : Bool := isClosing entry || Text.lower entry == "%attn"

variable {a b : AssocList} {e : String}

theorem isTransparent_cases (h : isTransparent e = true) :
    isClosing e = true ∨ Text.lower e = "%attn" := by
  simpa [isTransparent] using h

/-- An entry that is `%attn` in lower case starts with the same character. -/
theorem isMarker_of_lower_eq (h : Text.lower e = "%attn") : isMarker e = true := by
  have hlower : Text.lower "%attn" = Text.lower e := by
    rw [h]
    decide
  have hsteady : Text.Steady '%' := Text.steady_of_isSteady (by decide +kernel)
  have hhead := (Text.sameLower_of_lower_eq hlower).head? hsteady rfl
  rw [isMarker, hhead]
  rfl

/-- Both are markers. -/
theorem isMarker_of_isTransparent (e : String) (h : isTransparent e = true) : isMarker e = true := by
  rcases isTransparent_cases h with hclosing | hlower
  · exact AssocList.isMarker_of_isClosing hclosing
  · exact isMarker_of_lower_eq hlower

/-- No such entry introduces anybody. -/
theorem isMarkerNamed_intro (e : String) (h : isTransparent e = true) :
    AssocList.isMarkerNamed "$intro" e = false := by
  rcases isTransparent_cases h with hclosing | hlower
  · rcases AssocList.isClosing_cases hclosing with rfl | rfl | rfl <;> decide
  · rw [AssocList.isMarkerNamed, Text.sameFolded, hlower, Bool.and_eq_false_iff]
    exact .inr (by decide)

/-! ## The tests one by one -/

/-- Entries that are seen through do not count among the markers that classify. -/
theorem markers_eq (h : Omits isTransparent a.entries b.entries) :
    markers a.entries = markers b.entries := by
  apply h.filter_eq
  intro e he
  rcases isTransparent_cases he with hclosing | hlower
  · simp [hclosing]
  · simp [hlower]

/-- Whether there is nothing but an attention phrase does not depend on them. -/
theorem onlyAttention_eq (h : Omits isTransparent a.entries b.entries) :
    onlyAttention a.entries = onlyAttention b.entries := by
  have hpairs : a.entries.filter AssocList.isPair = b.entries.filter AssocList.isPair :=
    h.filter_eq fun e he => AssocList.isPair_of_isMarker (isMarker_of_isTransparent e he)
  simp only [onlyAttention, hpairs, markers_eq h]

/-- The name is searched for behind the introduction, where nothing else is left out. -/
theorem introduced?_eq (h : Omits isTransparent a.entries b.entries) :
    introduced? a = introduced? b := by
  rcases h.findMarker_cases isMarkerNamed_intro with ⟨ha, hb⟩ | ⟨a', b', ha, hb, hrest⟩
  · simp only [introduced?, ha, hb]
  · simp only [introduced?, ha, hb]
    exact hrest.slotValue_eq isMarker_of_isTransparent "NAME"

/-- The act and the name depend on these tests only, so they are the same as well. -/
theorem ofList_eq (h : Omits isTransparent a.entries b.entries) : ofList a = ofList b := by
  simp only [ofList, h.hasSlot_eq isMarker_of_isTransparent, onlyAttention_eq h, introduced?_eq h,
    markers_eq h]

/-! ## The classification -/

/-- If there are entries, they decide. -/
theorem classify_of_ne_nil (alerts : List String) (text : String) (unknown : List String)
    (hne : a.entries ≠ []) :
    let r := (classify alerts a text unknown).1
    r.act = (ofList a).1 ∧ r.name = (ofList a).2 ∧ r.polite = a.hasSlot "POLITE" false
      ∧ r.attention = a.hasSlot Attention.slot false := by
  have hsome : a.entries.isEmpty = false := by simpa using hne
  simp [classify, hsome]

/-- Whichever of its bare markers and of the markers that wrap an attention phrase are left out of an
association list, as long as an entry remains, it is classified as the same act, with the same name and
the same flags for politeness and attention. -/
theorem classify_sees_through (alerts : List String) (text : String) (unknown : List String)
    (h : Omits isTransparent a.entries b.entries) (hne : b.entries ≠ []) :
    let r := (classify alerts a text unknown).1
    let s := (classify alerts b text unknown).1
    r.act = s.act ∧ r.name = s.name ∧ r.polite = s.polite ∧ r.attention = s.attention := by
  intro r s
  obtain ⟨e, he⟩ := List.exists_mem_of_ne_nil _ hne
  have hfull : a.entries ≠ [] := List.ne_nil_of_mem (h.subset e he)
  obtain ⟨hact, hname, hpolite, hattention⟩ := classify_of_ne_nil alerts text unknown hfull
  obtain ⟨hact', hname', hpolite', hattention'⟩ := classify_of_ne_nil alerts text unknown hne
  refine ⟨?_, ?_, ?_, ?_⟩
  · exact hact.trans ((congrArg Prod.fst (ofList_eq h)).trans hact'.symm)
  · exact hname.trans ((congrArg Prod.snd (ofList_eq h)).trans hname'.symm)
  · exact hpolite.trans ((h.hasSlot_eq isMarker_of_isTransparent _).trans hpolite'.symm)
  · exact hattention.trans ((h.hasSlot_eq isMarker_of_isTransparent _).trans hattention'.symm)

/-- A call to a robot, with a command in it, is the same without its wrapper and its closing markers. -/
theorem classify_sees_through_grab :
    let a : AssocList := ⟨"\t%ATTN\tATTN=robot\t!grab\tAKO=block\t!\t%"⟩
    let b : AssocList := ⟨"\tATTN=robot\t!grab\tAKO=block\t!"⟩
    Omits isTransparent a.entries b.entries ∧ b.entries ≠ []
      ∧ let r := (classify ["robot"] a "Robot, grab the block!" []).1
        let s := (classify ["robot"] b "Robot, grab the block!" []).1
        r.act = s.act ∧ r.name = s.name ∧ r.polite = s.polite ∧ r.attention = s.attention := by
  intro a b
  have ha : a.entries = ["%ATTN", "ATTN=robot", "!grab", "AKO=block", "!", "%"] := by decide +kernel
  have hb : b.entries = ["ATTN=robot", "!grab", "AKO=block", "!"] := by decide +kernel
  have hne : b.entries ≠ [] := by
    rw [hb]
    exact List.cons_ne_nil _ _
  have homits : Omits isTransparent a.entries b.entries := by
    rw [ha, hb]
    refine .leave (by decide) (.keep _ (.keep _ (.keep _ (.keep _ (.leave (by decide) .nil)))))
  exact ⟨homits, hne, classify_sees_through ["robot"] "Robot, grab the block!" [] homits hne⟩

end SpeechAct

end Utterance
