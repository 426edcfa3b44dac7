import Utterance.Inflection
import Utterance.Proofs.Text.Blank

/-!
# Plurals that come back

The plural of a noun is spelled like the present tense of a verb, and both are undone by the same rules.
A form is read as that of another word in two cases: if the word ends in an e that is taken for a part of
the ending, and if it hisses right after a vowel, so that an e is taken for a part of the word. All other
words come back. Without irregular forms this decides which plurals and present tense forms of single
words lead to their base.
-/

namespace Utterance

namespace Suffix

variable {w rest : List Char} {word : String}

/-! ## On letters -/

/-- Whether a final e is taken for a part of the ending. -/
def losesE : List Char → Bool
  | 'e' :: 'h' :: 'c' :: _ => true
  | 'e' :: 'h' :: 's' :: _ => true
  | 'e' :: 'x' :: _ => true
  | 'e' :: 'i' :: _ => true
  | 'e' :: 's' :: rest => !endsInVowel rest
  | 'e' :: 'z' :: rest => !endsInVowel rest
  | _ => false

/-- Whether the e of the ending is taken for a part of the word. -/
def gainsE : List Char → Bool
  | 's' :: rest => endsInVowel rest
  | 'z' :: rest => endsInVowel rest
  | _ => false

/-- An `s` alone comes off again if it leaves no e that goes with it. The cases are the endings with
which an e goes off as well. -/
theorem removeS_cons_eq_iff (w : List Char) : removeS ('s' :: w) = w ↔ losesE w = false := by
  unfold losesE
  split
  · simp [removeS]
  · simp [removeS]
  · simp [removeS]
  · simp [removeS]
  · rename_i rest
    cases hvowel : endsInVowel rest <;> simp [removeS, hvowel]
  · rename_i rest
    cases hvowel : endsInVowel rest <;> simp [removeS, hvowel]
  · rename_i hche hshe hxe hie hse hze
    have hplain : removeS ('s' :: w) = w := by
      unfold removeS
      split <;> grind
    simp [hplain]

/-- So does the longer ending after a word that hisses, if the word does not do so after a vowel. -/
theorem removeS_cons_cons_eq_iff {z : Char} (hz : z = 's' ∨ z = 'z') (rest : List Char) :
    removeS ('s' :: 'e' :: z :: rest) = z :: rest ↔ endsInVowel rest = false := by
  rcases hz with rfl | rfl <;> cases hvowel : endsInVowel rest <;> simp [removeS, hvowel]

/-- Exactly the words that neither lose nor gain an e come back. The cases are those of adding an
`s`: what the word ends in decides how it is spelled, and then what comes off again. -/
theorem removeS_addS_eq_iff (w : List Char) :
    removeS (addS w) = w ↔ losesE w = false ∧ gainsE w = false := by
  unfold addS
  split
  · rename_i c rest
    split
    · simp [removeS_cons_eq_iff, gainsE]
    -- the i turns into the y again
    · simp [removeS, losesE, gainsE]
  · simp [removeS, losesE, gainsE]
  · simp [removeS, losesE, gainsE]
  · simp [removeS_cons_cons_eq_iff, losesE, gainsE]
  · simp [removeS, losesE, gainsE]
  · simp [removeS_cons_cons_eq_iff, losesE, gainsE]
  · rename_i hy hch hsh hs hx hz
    have hgains : gainsE w = false := by
      unfold gainsE
      split <;> grind
    rw [removeS_cons_eq_iff, hgains]
    simp

/-! ## On words -/

/-- Whether a word ends in a text that follows a vowel. -/
def endsAfterVowel (word ending : String) : Bool :=
  endsWith word ending && endsInVowel (word.toList.reverse.drop ending.toList.length)

/-- Whether the plural of a word is read as that of another word. -/
def isMisread (word : String) : Bool :=
  ["che", "she", "xe", "ie"].any (endsWith word)
    || ["s", "z"].any (endsAfterVowel word)
    || ["se", "ze"].any fun e => endsWith word e && !endsAfterVowel word e

/-- A word is misread if its plural loses an e or gains one when it is read back; both can be told
from its last letters. -/
theorem isMisread_eq (word : String) :
    isMisread word = (losesE word.toList.reverse || gainsE word.toList.reverse) := by
  unfold isMisread endsAfterVowel endsWith
  generalize word.toList.reverse = w
  simp only [List.any_cons, List.any_nil, Bool.or_false, String.reduceToList, List.reverse_cons,
    List.reverse_nil, List.nil_append, List.cons_append, List.length_cons, List.length_nil,
    Nat.zero_add, Nat.reduceAdd]
  -- the endings are told apart from the last letter on
  unfold losesE
  split
  · simp
  · simp
  · simp
  · simp
  · simp [gainsE, List.isPrefixOf]
  · simp [gainsE, List.isPrefixOf]
  -- the word has none of the endings that lose their e
  · rename_i hche hshe hxe hie hse hze
    have hother (e : List Char) (h : ∀ rest, w = e ++ rest → False) : e.isPrefixOf w = false := by
      rw [Bool.eq_false_iff]
      intro hprefix
      obtain ⟨rest, hrest⟩ := List.isPrefixOf_iff_prefix.1 hprefix
      exact h rest hrest.symm
    unfold gainsE
    split
    · simp [List.isPrefixOf]
    · simp [List.isPrefixOf]
    · rename_i hs hz
      simp [-List.isPrefixOf_iff_prefix, hother ['e', 'h', 'c'] hche, hother ['e', 'h', 's'] hshe,
        hother ['e', 'x'] hxe, hother ['e', 'i'] hie, hother ['e', 's'] hse, hother ['e', 'z'] hze,
        hother ['s'] hs, hother ['z'] hz]

/-- The plural of a word is read back as the word just if it is not misread. -/
theorem withoutS_withS_eq_iff (word : String) :
    withoutS (withS word) = word ↔ isMisread word = false := by
  have hletters : (withoutS (withS word)).toList.reverse = removeS (addS word.toList.reverse) := by
    simp [withoutS, withS, fromEnd]
  rw [isMisread_eq, Bool.or_eq_false_iff, ← removeS_addS_eq_iff, ← hletters, List.reverse_inj,
    String.toList_inj]

/-- No ending of a plural has a space. -/
theorem space_not_mem_withS (h : ' ' ∉ word.toList) : ' ' ∉ (withS word).toList := by
  have hletters : ∀ w : List Char, ' ' ∉ w → ' ' ∉ addS w := by
    intro w hw
    unfold addS
    split <;> grind
  rw [withS, fromEnd, String.toList_ofList, List.mem_reverse]
  exact hletters _ (by rwa [List.mem_reverse])

end Suffix

/-! ## Without irregular forms -/

namespace Irregulars

variable {m : Irregulars} {tags : Tags} {word : String}

theorem irregularForm_of_forms_eq_nil (h : m.forms = []) (word : String) (tags : Tags) :
    m.irregularForm word tags = none := by
  cases htag : tags.inflection? <;> simp [irregularForm, surface?, htag, h]

theorem irregularBase_of_forms_eq_nil (h : m.forms = []) (word : String) (tags : Tags) :
    m.irregularBase word tags = none := by
  cases htag : tags.inflection? <;> simp [irregularBase, base?, htag, h]

/-- With an empty table a single word has its regular form. -/
theorem surface_of_forms_eq_nil (h : m.forms = []) (hclass : tags.hasClass = true)
    (hpossessive : tags.has .possessive = false) (hword : ' ' ∉ word.toList) :
    m.surface word tags = .ok (regularForm word tags) := by
  simp only [surface, Tags.requireClass, hclass, form, hpossessive, phraseForm,
    irregularForm_of_forms_eq_nil h, Text.cutAt_of_not_mem hword]
  rfl

/-- And its regular base. -/
theorem base_of_forms_eq_nil (h : m.forms = []) (hclass : tags.hasClass = true)
    (hpossessive : tags.has .possessive = false) (hword : ' ' ∉ word.toList) :
    m.base word tags = .ok (regularBase word tags) := by
  simp only [base, Tags.requireClass, hclass, baseForm, hpossessive, phraseBase,
    irregularBase_of_forms_eq_nil h, Text.cutAt_of_not_mem hword]
  rfl

/-- Adding and taking off the ending of a plural gives a word back exactly if its plural is not read as
that of another word. Without irregular forms this decides whether the plural or the present tense form of
a single word leads to its base. -/
theorem base_surface_plural_iff (word : String) :
    (Suffix.withoutS (Suffix.withS word) = word ↔ Suffix.isMisread word = false)
      ∧ ∀ (m : Irregulars) (t : Tag), m.forms = [] → t ∈ [Tag.plural, .present] → ' ' ∉ word.toList →
        ∃ form, m.surface word (.single t) = .ok (some form)
          ∧ (m.base form (.single t) = .ok (some word) ↔ Suffix.isMisread word = false) := by
  refine ⟨Suffix.withoutS_withS_eq_iff word, fun m t hforms ht hword => ?_⟩
  have hspace := Suffix.space_not_mem_withS hword
  -- both tags lead to the same rule
  have htags : (Tags.single t).hasClass = true ∧ (Tags.single t).has .possessive = false
      ∧ regularForm word (.single t) = some (Suffix.withS word)
      ∧ regularBase (Suffix.withS word) (.single t) = some (Suffix.withoutS (Suffix.withS word)) := by
    simp only [List.mem_cons, List.not_mem_nil, or_false] at ht
    rcases ht with rfl | rfl <;> exact ⟨rfl, rfl, rfl, rfl⟩
  obtain ⟨hclass, hpossessive, hform, hbase⟩ := htags
  refine ⟨Suffix.withS word, ?_, ?_⟩
  · rw [surface_of_forms_eq_nil hforms hclass hpossessive hword, hform]
  · rw [base_of_forms_eq_nil hforms hclass hpossessive hspace, hbase]
    simp only [Except.ok.injEq, Option.some.injEq]
    exact Suffix.withoutS_withS_eq_iff word

/-- The plural of `dog` leads to its base, but `ties` is read as a form of `ty`. -/
theorem base_surface_plural_dog :
    (∃ form, surface {} "dog" (.single .plural) = .ok (some form)
        ∧ base {} form (.single .plural) = .ok (some "dog"))
      ∧ ∃ form, surface {} "tie" (.single .present) = .ok (some form)
        ∧ base {} form (.single .present) ≠ .ok (some "tie") := by
  constructor
  · obtain ⟨form, hform, hback⟩ :=
      (base_surface_plural_iff "dog").2 {} .plural rfl (by decide) (by decide)
    exact ⟨form, hform, hback.2 (by decide)⟩
  · obtain ⟨form, hform, hback⟩ :=
      (base_surface_plural_iff "tie").2 {} .present rfl (by decide) (by decide)
    refine ⟨form, hform, fun heq => ?_⟩
    exact absurd (hback.1 heq) (by decide)

end Irregulars

end Utterance
