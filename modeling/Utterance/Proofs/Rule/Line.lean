import Mathlib.Data.List.Chain
import Utterance.Proofs.Text.Blank
import Utterance.Proofs.Text.Casing
import Utterance.Rule.Line

/-!
# Lines that are written

A line of a grammar file is read as it was written if nothing in it starts a comment or ends the line
before its time. Blanks before it are taken away, and between its brackets the head of a section is
found again.
-/

namespace Utterance.Line

/-! ## Seamless texts -/

/-- A text that goes into one line without a comment. -/
structure Seamless (cs : List Char) : Prop where
  semicolon : ';' ∉ cs
  /-- No two slashes in a row. -/
  slashes : cs.IsChain fun a b => ¬(a = '/' ∧ b = '/')
  lineFeed : '\n' ∉ cs
  carriageReturn : '\r' ∉ cs

instance : DecidablePred Seamless := fun cs =>
  decidable_of_iff (';' ∉ cs ∧ (cs.IsChain fun a b => ¬(a = '/' ∧ b = '/')) ∧ '\n' ∉ cs ∧ '\r' ∉ cs)
    ⟨fun ⟨hsemicolon, hslashes, hfeed, hreturn⟩ => ⟨hsemicolon, hslashes, hfeed, hreturn⟩,
      fun h => ⟨h.semicolon, h.slashes, h.lineFeed, h.carriageReturn⟩⟩

/-- Two such texts may be put together, unless that makes two slashes in a row. -/
theorem Seamless.append {xs ys : List Char} (hx : Seamless xs) (hy : Seamless ys)
    (hseam : xs.getLast? ≠ some '/' ∨ ys.head? ≠ some '/') : Seamless (xs ++ ys) where
  semicolon := by simp [hx.semicolon, hy.semicolon]
  slashes := by
    refine List.isChain_append.2 ⟨hx.slashes, hy.slashes, ?_⟩
    rintro a ha b hb ⟨rfl, rfl⟩
    exact hseam.elim (· ha) (· hb)
  lineFeed := by simp [hx.lineFeed, hy.lineFeed]
  carriageReturn := by simp [hx.carriageReturn, hy.carriageReturn]

/-- Without two slashes in a row nothing is cut off. -/
theorem beforeSlashes_eq_self {cs : List Char}
    (h : cs.IsChain fun a b => ¬(a = '/' ∧ b = '/')) : beforeSlashes cs = cs := by
  fun_induction beforeSlashes cs with
  | case1 => rfl
  | case2 rest =>
    rw [List.isChain_cons_cons] at h
    exact absurd ⟨rfl, rfl⟩ h.1
  | case3 c cs _ ih => rw [ih h.tail]

/-- A seamless text is what is left of its line, if no space or tab is before it and no blank is
behind it. -/
theorem clean_append_of_ends {indent text : List Char} (hindent : ∀ c ∈ indent, c = ' ')
    (hseamless : Seamless text) (hfirst : ∀ c ∈ text.head?, c ≠ ' ' ∧ c ≠ '\t')
    (hlast : ∀ c ∈ text.getLast?, Text.isBlank c = false) :
    clean (String.ofList (indent ++ text)) = String.ofList text := by
  have hstart : (indent ++ text).dropWhile (fun c => c == ' ' || c == '\t') = text := by
    rw [List.dropWhile_append_of_pos fun c hc => by rw [hindent c hc]; rfl]
    refine Text.dropWhile_eq_self fun c hc => ?_
    rw [Bool.or_eq_false_iff, beq_eq_false_iff_ne, beq_eq_false_iff_ne]
    exact hfirst c hc
  have hend : Text.dropTailWhile (fun c => c == '\r' || c == '\n') text = text := by
    refine Text.dropTailWhile_eq_self fun c hc => ?_
    have hblank := hlast c hc
    rw [Bool.or_eq_false_iff, beq_eq_false_iff_ne, beq_eq_false_iff_ne]
    constructor <;> (rintro rfl; cases hblank)
  simp only [clean, String.toList_ofList, hstart, hend, Text.cutAt_of_not_mem hseamless.semicolon,
    beforeSlashes_eq_self hseamless.slashes, Text.dropTailWhile_eq_self hlast]

/-- A seamless text without blanks at its ends is what is left of its line. -/
theorem clean_append {indent text : List Char} (hindent : ∀ c ∈ indent, c = ' ')
    (hseamless : Seamless text) (htrimmed : Text.trimChars text = text) :
    clean (String.ofList (indent ++ text)) = String.ofList text := by
  obtain ⟨hhead, hlast⟩ := Text.trimChars_eq_self_iff.1 htrimmed
  refine clean_append_of_ends hindent hseamless (fun c hc => ?_) hlast
  have hblank := hhead c hc
  constructor <;> (rintro rfl; cases hblank)

/-! ## Heads of sections -/

/-- A head that a line can open a section of rules for. -/
structure Opens (head : String) : Prop where
  seamless : Seamless head.toList
  ne_empty : head ≠ ""
  trimmed : Text.trim head = head
  unclosed : ∀ c ∈ head.toList, c ≠ ']' ∧ c ≠ '>'
  regular : isIrregularHead head = false

/-- A text is cut at the first character of a kind. -/
theorem cutWhere_append {p : Char → Bool} {cs rest : List Char} {d : Char}
    (h : ∀ c ∈ cs, p c = false) (hd : p d = true) : cutWhere p (cs ++ d :: rest) = (cs, some rest) := by
  have hdrop : (cs ++ d :: rest).dropWhile (!p ·) = d :: rest := by
    rw [List.dropWhile_append_of_pos fun c hc => by rw [h c hc]; rfl]
    exact List.dropWhile_cons_of_neg (by simp [hd])
  have htake : (cs ++ d :: rest).takeWhile (!p ·) = cs := by
    rw [List.takeWhile_append_of_pos fun c hc => by rw [h c hc]; rfl,
      List.takeWhile_cons_of_neg (by simp [hd]), List.append_nil]
  rw [cutWhere, hdrop, htake]

/-- The line that opens the section of a head. -/
def opening (head : String) : String := "=[" ++ head ++ "]"

namespace Opens

variable {head : String}

theorem trimChars_eq (h : Opens head) : Text.trimChars head.toList = head.toList := by
  have htrimmed := congrArg String.toList h.trimmed
  rwa [Text.trim, String.toList_ofList] at htrimmed

theorem toList_opening (head : String) : (opening head).toList = '=' :: '[' :: (head.toList ++ [']']) := by
  simp [opening]

/-- The head is read from the line that opens its section. The brackets around it are the only ones
that matter, as a head that a line can open a section for contains no closing one. -/
theorem header?_opening (h : Opens head) : header? (opening head) = some head := by
  have hopen : cutWhere (fun c => c == '[' || c == '<') ('[' :: (head.toList ++ [']']))
      = ([], some (head.toList ++ [']'])) :=
    cutWhere_append (fun c (hc : c ∈ []) => absurd hc List.not_mem_nil) rfl
  have hclose : cutWhere (fun c => c == ']' || c == '>') (head.toList ++ [']'])
      = (head.toList, some []) := by
    refine cutWhere_append (fun c hc => ?_) rfl
    simpa using h.unclosed c hc
  have hne : head.toList.isEmpty = false := by
    simpa using h.ne_empty
  rw [header?, toList_opening]
  simp only [hopen, hclose, h.trimChars_eq, hne, String.ofList_toList]
  rfl

/-- Such a line has no comment in it. -/
theorem seamless_opening (h : Opens head) : Seamless (opening head).toList := by
  have hopen : Seamless ['=', '['] := by decide
  have hclose : Seamless [']'] := by decide
  have hall := (hopen.append h.seamless (.inl (by decide))).append hclose (.inr (by decide))
  rw [toList_opening]
  exact hall

/-- So nothing of it is lost. -/
theorem clean_opening (h : Opens head) : clean (opening head) = opening head := by
  have htrimmed : Text.trimChars (opening head).toList = (opening head).toList := by
    rw [Text.trimChars_eq_self_iff, toList_opening, ← List.cons_append, ← List.cons_append,
      List.getLast?_concat, List.cons_append, List.head?_cons]
    constructor <;> (intro c hc; cases hc; rfl)
  have hclean := clean_append (fun c (hc : c ∈ []) => absurd hc List.not_mem_nil)
    h.seamless_opening htrimmed
  rwa [List.nil_append, String.ofList_toList] at hclean

/-- It is the line of a head and includes no file. -/
theorem startsWith_opening (head : String) :
    startsWith (opening head) "#include" = false ∧ startsWith (opening head) "=" = true := by
  rw [startsWith, startsWith, toList_opening]
  exact ⟨rfl, rfl⟩

/-- Whether a line can open a section for a head does not depend on its case. Letters become
letters, and the brackets, slashes and blanks that matter here have no other case. -/
theorem of_lower_eq (h : Opens head) {other : String} (hlower : Text.lower head = Text.lower other) :
    Opens other := by
  have hsame := (Text.sameLower_of_lower_eq hlower).symm
  -- the marks have no case, so they stand at the same places in every spelling of a head
  have hnot : ∀ {c : Char}, c ∈ [';', '/', ']', '>', '\n', '\r', '#'] → c ∉ head.toList →
      c ∉ other.toList :=
    fun hc hhead hother => hhead (hsame.mem (Text.steady_of_mem hc) hother)
  obtain ⟨hfirst, hlast⟩ := Text.trimChars_eq_self_iff.1 h.trimChars_eq
  refine ⟨⟨hnot (by decide) h.seamless.semicolon, ?_, hnot (by decide) h.seamless.lineFeed,
    hnot (by decide) h.seamless.carriageReturn⟩, ?_, ?_, fun c hc => ⟨?_, ?_⟩, ?_⟩
  · rw [List.isChain_iff_forall_rel_of_append_cons_cons]
    rintro a b before rest hother ⟨rfl, rfl⟩
    rw [hother] at hsame
    obtain ⟨before', rest', hhead⟩ := hsame.exists_twice (Text.steady_of_mem (by decide))
    have hslashes := h.seamless.slashes
    rw [List.isChain_iff_forall_rel_of_append_cons_cons] at hslashes
    exact hslashes hhead ⟨rfl, rfl⟩
  · rintro rfl
    exact h.ne_empty (by simpa using hsame.eq_nil)
  · have htrimmed : Text.trimChars other.toList = other.toList := by
      rw [Text.trimChars_eq_self_iff]
      constructor
      · intro c hc
        rw [Bool.eq_false_iff]
        intro hblank
        have hhead := hfirst c (hsame.head? (Text.steady_of_isBlank hblank) hc)
        rw [hblank] at hhead
        cases hhead
      · intro c hc
        rw [Bool.eq_false_iff]
        intro hblank
        have hhead := hlast c (hsame.getLast? (Text.steady_of_isBlank hblank) hc)
        rw [hblank] at hhead
        cases hhead
    rw [Text.trim, htrimmed, String.ofList_toList]
  · rintro rfl
    exact hnot (by decide) (fun hmem => (h.unclosed _ hmem).1 rfl) hc
  · rintro rfl
    exact hnot (by decide) (fun hmem => (h.unclosed _ hmem).2 rfl) hc
  · have hregular := h.regular
    rw [isIrregularHead, hlower] at hregular
    exact hregular

end Opens

end Utterance.Line
