import Utterance.Proofs.Text.LowerCase
import Utterance.Text.Number

/-!
# Numbers in lower case

Digits, points and signs have no case, both letters e may open an exponent, and nothing else stands in a
number or becomes a part of one in lower case. So whether a text is a number does not depend on its case.
A text begins with a number if and only if some front part of it is one, whatever follows.
-/

namespace Utterance.Text

variable {c d : Char} {before cs : List Char}

/-! ## Parts of numbers -/

/-- What a character is in a number: a zero for all digits, a small e for both, a point or a sign for
itself. A space stands for what is no part of a number. -/
def numberPart (c : Char) : Char :=
  if isDecimal c then '0'
  else if c = 'e' ∨ c = 'E' then 'e'
  else if c ∈ ['.', '+', '-'] then c
  else ' '

/-- Whether a character is a digit can be told from the part that it is. All digits are the part
`0`, which is one, and no other character is made one. -/
theorem isDecimal_numberPart (c : Char) : isDecimal (numberPart c) = isDecimal c := by
  unfold numberPart
  cases hc : isDecimal c with
  | true => rfl
  | false =>
    simp only [Bool.false_eq_true, if_false]
    split
    · rfl
    · split
      · exact hc
      · rfl

theorem numberPart_of_isDecimal (h : isDecimal c = true) : numberPart c = '0' := if_pos h

/-- A mark is the part that it is itself, and no other character is this part. The other parts are a
digit, the letter of an exponent, and what is in no number. -/
theorem numberPart_eq_iff (hd : d ∈ ['.', '+', '-']) : numberPart c = d ↔ c = d := by
  have hapart : isDecimal d = false ∧ d ≠ '0' ∧ d ≠ 'e' ∧ d ≠ 'E' ∧ d ≠ ' ' := by
    simp only [List.mem_cons, List.not_mem_nil, or_false] at hd
    rcases hd with rfl | rfl | rfl <;> decide
  obtain ⟨hdecimal, hzero, hsmall, hlarge, hspace⟩ := hapart
  constructor
  · intro hpart
    unfold numberPart at hpart
    split at hpart
    · exact absurd hpart.symm hzero
    · split at hpart
      · exact absurd hpart.symm hsmall
      · split at hpart
        · exact hpart
        · exact absurd hpart.symm hspace
  · rintro rfl
    unfold numberPart
    rw [hdecimal, if_neg Bool.false_ne_true, if_neg (not_or.2 ⟨hsmall, hlarge⟩), if_pos hd]

/-- Only the two letters e are the part that opens an exponent. -/
theorem numberPart_eq_e_iff : (numberPart c = 'e' ∨ numberPart c = 'E') ↔ c = 'e' ∨ c = 'E' := by
  constructor
  · intro hpart
    unfold numberPart at hpart
    split at hpart
    · exact absurd hpart (by decide)
    · split at hpart
      · assumption
      · split at hpart
        · exact hpart
        · exact absurd hpart (by decide)
  · rintro (rfl | rfl)
    · exact .inl rfl
    · exact .inl rfl

/-! ## Parts in lower case -/

/-- First and last numbers of the parts of the basic alphabet. -/
def basicRanges : List (Nat × Nat) := [(0x2B, 0x2B), (0x2D, 0x2E), (0x30, 0x39), (0x45, 0x45), (0x65, 0x65)]

/-- First and last numbers of all parts. -/
def partRanges : List (Nat × Nat) := basicRanges ++ decimalStarts.map fun z => (z, z + 9)

/-- Every part of a number lies in one of the ranges: a digit in that of its script, the others in
those of the basic alphabet. -/
theorem exists_range_of_numberPart_ne (h : numberPart c ≠ ' ') :
    ∃ range ∈ partRanges, range.1 ≤ c.toNat ∧ c.toNat ≤ range.2 := by
  unfold numberPart at h
  split at h
  · rename_i hdecimal
    unfold isDecimal decimalValue? at hdecimal
    split at hdecimal
    · -- the digits of the basic alphabet have a range of their own
      refine ⟨(0x30, 0x39), List.mem_append_left _ (by decide), ?_⟩
      split at hdecimal
      · rename_i hdigit
        simp only [Char.isDigit, Bool.and_eq_true, decide_eq_true_eq, ge_iff_le, UInt32.le_iff_toNat_le]
          at hdigit
        exact hdigit
      · cases hdecimal
    · rw [Option.isSome_map] at hdecimal
      obtain ⟨z, hfind⟩ := Option.isSome_iff_exists.1 hdecimal
      have hin := List.find?_some hfind
      simp only [Bool.and_eq_true, decide_eq_true_eq] at hin
      refine ⟨(z, z + 9), ?_, hin.1, by omega⟩
      exact List.mem_append_right _ (List.mem_map_of_mem (List.mem_of_find?_eq_some hfind))
  -- the other parts are single characters of the basic alphabet
  · have hc : c ∈ ['e', 'E', '.', '+', '-'] := by
      split at h
      · rename_i he
        rcases he with rfl | rfl
        · decide
        · decide
      · split at h
        · exact List.mem_cons_of_mem _ (List.mem_cons_of_mem _ ‹_›)
        · exact absurd rfl h
    have hmark : ∃ range ∈ basicRanges, range.1 ≤ c.toNat ∧ c.toNat ≤ range.2 := by
      simp only [List.mem_cons, List.not_mem_nil, or_false] at hc
      rcases hc with rfl | rfl | rfl | rfl | rfl <;> decide
    obtain ⟨range, hrange, hin⟩ := hmark
    exact ⟨range, List.mem_append_left _ hrange, hin⟩

/-- Whether no number from `a` to `b` is that of a part. -/
def sparesParts (a b : Nat) : Bool := partRanges.all fun range => Nat.blt range.2 a || Nat.blt b range.1

/-- A range that spares the parts holds none of them. -/
theorem numberPart_eq_space {a b : Nat} (h : sparesParts a b = true) (ha : a ≤ c.toNat)
    (hb : c.toNat ≤ b) : numberPart c = ' ' := by
  apply Classical.not_not.1
  intro hpart
  obtain ⟨range, hrange, hfirst, hlast⟩ := exists_range_of_numberPart_ne hpart
  have hspares := List.all_eq_true.1 h range hrange
  simp only [Bool.or_eq_true, Nat.blt_eq] at hspares
  omega

/-- No run of letters that have a lower case elsewhere touches a part of numbers, nor do the places
that it is moved to. The table is finite, so this is checked. -/
theorem all_sparesParts : loweringRuns.all (fun r => sparesParts r.first r.last
    && sparesParts (r.first + r.shift).toNat (r.last + r.shift).toNat) = true := by
  decide +kernel

/-- A run neither holds parts of numbers nor moves its characters to them. -/
theorem CaseRun.numberPart_eq_space {r : CaseRun} {n : Nat} (hr : r ∈ loweringRuns)
    (hn : r.holds n = true) (hc : c.toNat = n ∨ c.toNat = (n + r.shift).toNat) : numberPart c = ' ' := by
  obtain ⟨hheld, hmoved⟩ := Bool.and_eq_true_iff.1 (List.all_eq_true.1 all_sparesParts r hr)
  simp only [holds, Bool.and_eq_true, decide_eq_true_eq] at hn
  obtain ⟨⟨hfirst, hlast⟩, -⟩ := hn
  rcases hc with hc | hc
  · exact Text.numberPart_eq_space hheld (by omega) (by omega)
  · exact Text.numberPart_eq_space hmoved (by omega) (by omega)

/-- In lower case a character becomes the part of numbers that it is, and none if it is none. For
the basic alphabet this is looked at character by character, for all others by the runs of the
table. -/
theorem numberPart_of_mem_lowerChar (h : d ∈ lowerChar c) : numberPart d = numberPart c := by
  -- by the cases of the table: basic alphabet, the one capital with two characters, runs
  unfold lowerChar at h
  split at h
  · rename_i hlt
    have hall : ∀ n < 128, numberPart (Char.ofNat n).toLower = numberPart (Char.ofNat n) := by decide
    have hc := hall c.toNat hlt
    rw [Char.ofNat_toNat] at hc
    rw [List.mem_singleton.1 h, hc]
  · split at h
    · rename_i hdotted
      rw [← Char.ofNat_toNat c, hdotted]
      simp only [List.mem_cons, List.not_mem_nil, or_false] at h
      rcases h with rfl | rfl
      · decide +kernel
      · decide +kernel
    · rw [List.mem_singleton.1 h]
      rcases mapCase_cases loweringRuns c.toNat with ⟨r, hr, hholds, hmoved⟩ | ⟨_, hsame⟩
      · rw [CaseRun.numberPart_eq_space hr hholds (.inl rfl), hmoved]
        -- a number that stands for no character would stand for the first one
        by_cases hzero : (Char.ofNat (c.toNat + r.shift).toNat).toNat = 0
        · have hfirst : Char.ofNat (c.toNat + r.shift).toNat = Char.ofNat 0 := by
            rw [← hzero, Char.ofNat_toNat]
          rw [hfirst]
          decide
        · exact CaseRun.numberPart_eq_space hr hholds (.inr (toNat_of_ofNat_eq rfl hzero).symm)
      · rw [hsame, Char.ofNat_toNat]

theorem map_numberPart_lowerChar (h : c ≠ 'İ') : (lowerChar c).map numberPart = [numberPart c] := by
  obtain ⟨d, hd⟩ := List.length_eq_one_iff.1 (length_lowerChar h)
  rw [hd, List.map_singleton, numberPart_of_mem_lowerChar (hd ▸ List.mem_singleton.2 rfl)]

/-- But for one capital, the lower case of a text has the same parts of numbers at the same places. -/
theorem map_numberPart_lowerAfter (h : 'İ' ∉ cs) :
    (lowerAfter before cs).map numberPart = cs.map numberPart := by
  induction cs generalizing before with
  | nil => rfl
  | cons c cs ih =>
    rw [List.mem_cons, not_or] at h
    rw [lowerAfter]
    split
    · rename_i hsigma
      have hsigmas : numberPart 'ς' = numberPart 'Σ' ∧ numberPart 'σ' = numberPart 'Σ' := by
        decide +kernel
      rw [List.map_cons, List.map_cons, ih h.2, hsigma]
      split
      · rw [hsigmas.1]
      · rw [hsigmas.2]
    · rw [List.map_append, map_numberPart_lowerChar (Ne.symm h.1), ih h.2]
      rfl

/-! ## What a number is made of -/

/-- Characters that are all parts of numbers. -/
def AllParts (cs : List Char) : Prop := ∀ c ∈ cs, numberPart c ≠ ' '

/-- Digits are parts of numbers. -/
theorem allParts_of_areDigits (h : areDigits cs = true) : AllParts cs := by
  intro c hc
  rw [areDigits, Bool.and_eq_true] at h
  rw [numberPart_of_isDecimal (List.all_eq_true.1 h.2 c hc)]
  decide

/-- Digits in front may be left out of consideration. -/
theorem allParts_of_dropWhile (h : AllParts (cs.dropWhile isDecimal)) : AllParts cs := by
  intro c hc
  rw [← List.takeWhile_append_dropWhile (p := isDecimal) (l := cs)] at hc
  rcases List.mem_append.1 hc with hc | hc
  · rw [numberPart_of_isDecimal (List.all_eq_true.1 List.all_takeWhile c hc)]
    decide
  · exact h c hc

theorem allParts_cons (hc : numberPart c ≠ ' ') (h : AllParts cs) : AllParts (c :: cs) :=
  List.forall_mem_cons.2 ⟨hc, h⟩

/-- So may a sign. -/
theorem allParts_of_dropSign (h : AllParts (dropSign cs)) : AllParts cs := by
  unfold dropSign at h
  split at h
  · exact allParts_cons (by decide) h
  · exact allParts_cons (by decide) h
  · exact h

/-- An exponent consists of parts of numbers. -/
theorem allParts_of_isExponent (h : isExponent cs = true) : AllParts cs := by
  cases cs with
  | nil => exact nofun
  | cons c cs =>
    simp only [isExponent, Bool.and_eq_true, Bool.or_eq_true, beq_iff_eq] at h
    refine allParts_cons ?_ (allParts_of_dropSign (allParts_of_areDigits h.2))
    rcases h.1 with rfl | rfl
    · decide
    · decide

/-- A number has no characters but parts of numbers: digits, one point, and an exponent with its
sign. -/
theorem allParts_of_isUnsigned (h : isUnsigned cs = true) : AllParts cs := by
  unfold isUnsigned at h
  split at h
  · rw [Bool.and_eq_true] at h
    exact allParts_cons (by decide) (allParts_of_dropWhile (allParts_of_isExponent h.2))
  · rw [Bool.and_eq_true] at h
    apply allParts_of_dropWhile
    obtain ⟨-, h⟩ := h
    split at h
    · rename_i hrest
      rw [hrest]
      exact allParts_cons (by decide) (allParts_of_dropWhile (allParts_of_isExponent h))
    · exact allParts_of_isExponent h

theorem allParts_of_isNumber {s : String} (h : isNumber s = true) : AllParts s.toList :=
  allParts_of_dropSign (allParts_of_isUnsigned h)

/-- There is no blank in a number. -/
theorem blank_not_mem_of_isNumber {s : String} (h : isNumber s = true) : ' ' ∉ s.toList :=
  fun hmem => allParts_of_isNumber h ' ' hmem (by decide)

/-! ## Numbers by their parts -/

/-- Digits are dropped from characters and from their parts alike. -/
theorem map_dropWhile_isDecimal (cs : List Char) :
    (cs.map numberPart).dropWhile isDecimal = (cs.dropWhile isDecimal).map numberPart := by
  rw [List.dropWhile_map]
  congr 2
  exact funext isDecimal_numberPart

/-- What it means to drop a sign, for rewriting. -/
theorem dropSign_cons (c : Char) (cs : List Char) :
    dropSign (c :: cs) = if c = '+' ∨ c = '-' then cs else c :: cs := by
  unfold dropSign
  split <;> simp_all

/-- Signs are dropped from characters and from their parts alike. -/
theorem dropSign_map (cs : List Char) : dropSign (cs.map numberPart) = (dropSign cs).map numberPart := by
  cases cs with
  | nil => rfl
  | cons c cs =>
    simp only [List.map_cons, dropSign_cons, numberPart_eq_iff (d := '+') (by decide),
      numberPart_eq_iff (d := '-') (by decide)]
    split <;> rfl

theorem areDigits_map (cs : List Char) : areDigits (cs.map numberPart) = areDigits cs := by
  rw [areDigits, List.isEmpty_map, List.all_map, Function.comp_def, funext isDecimal_numberPart]
  rfl

/-- Whether characters are an exponent can be told from their parts. -/
theorem isExponent_map (cs : List Char) : isExponent (cs.map numberPart) = isExponent cs := by
  cases cs with
  | nil => rfl
  | cons c cs =>
    have hletter : (numberPart c == 'e' || numberPart c == 'E') = (c == 'e' || c == 'E') := by
      rw [Bool.eq_iff_iff]
      simp only [Bool.or_eq_true, beq_iff_eq, numberPart_eq_e_iff]
    rw [List.map_cons, isExponent, isExponent, dropSign_map, areDigits_map, hletter]

theorem any_head?_map (cs : List Char) :
    (cs.map numberPart).head?.any isDecimal = cs.head?.any isDecimal := by
  cases cs with
  | nil => rfl
  | cons c cs => exact isDecimal_numberPart c

/-- Whether characters may follow the digits in front of the point. -/
def isAfterDigits (cs : List Char) : Bool :=
  match cs with
  | '.' :: frac => isExponent (frac.dropWhile isDecimal)
  | rest => isExponent rest

/-- Without a point only an exponent may follow the digits. -/
theorem isAfterDigits_cons_of_ne (h : c ≠ '.') : isAfterDigits (c :: cs) = isExponent (c :: cs) := by
  unfold isAfterDigits
  split
  · rename_i heq
    exact absurd (List.cons.inj heq).1 h
  · rfl

/-- Without a point in front, a number begins with a digit. -/
theorem isUnsigned_cons_of_ne (h : c ≠ '.') :
    isUnsigned (c :: cs) = (isDecimal c && isAfterDigits ((c :: cs).dropWhile isDecimal)) := by
  unfold isUnsigned
  split
  · rename_i heq
    exact absurd (List.cons.inj heq).1 h
  · rfl

/-- What may follow the digits can be told from the parts. -/
theorem isAfterDigits_map (cs : List Char) : isAfterDigits (cs.map numberPart) = isAfterDigits cs := by
  cases cs with
  | nil => rfl
  | cons c cs =>
    by_cases hc : c = '.'
    · subst hc
      show isExponent ((cs.map numberPart).dropWhile isDecimal) = isExponent (cs.dropWhile isDecimal)
      rw [map_dropWhile_isDecimal, isExponent_map]
    -- no other character is the part of a point
    · have hpart : numberPart c ≠ '.' := mt (numberPart_eq_iff (by decide)).1 hc
      rw [List.map_cons, isAfterDigits_cons_of_ne hpart, isAfterDigits_cons_of_ne hc, ← List.map_cons,
        isExponent_map]

/-- Whether characters are a number without a sign can be told from their parts. -/
theorem isUnsigned_map (cs : List Char) : isUnsigned (cs.map numberPart) = isUnsigned cs := by
  cases cs with
  | nil => rfl
  | cons c cs =>
    -- a number that starts with its point needs a digit behind it, and one that starts with a digit
    -- does not need the point
    by_cases hc : c = '.'
    · subst hc
      show ((cs.map numberPart).head?.any isDecimal
          && isExponent ((cs.map numberPart).dropWhile isDecimal))
        = (cs.head?.any isDecimal && isExponent (cs.dropWhile isDecimal))
      rw [any_head?_map, map_dropWhile_isDecimal, isExponent_map]
    · have hpart : numberPart c ≠ '.' := mt (numberPart_eq_iff (by decide)).1 hc
      rw [List.map_cons, isUnsigned_cons_of_ne hpart, isUnsigned_cons_of_ne hc, isDecimal_numberPart,
        ← List.map_cons, map_dropWhile_isDecimal, isAfterDigits_map]

/-- Whether a text is a number does not depend on its case. The letter of an exponent may stand in
either case, and no other letter is in a number. -/
theorem isNumber_lower (s : String) : isNumber (lower s) = isNumber s := by
  have hlist : (lower s).toList = lowerAfter [] s.toList := String.toList_ofList
  unfold isNumber
  rw [hlist]
  by_cases hdotted : 'İ' ∈ s.toList
  · -- this capital is in no number, and neither is the i that it becomes
    have hnone : ∀ {cs : List Char} {c : Char}, c ∈ cs → numberPart c = ' ' →
        isUnsigned (dropSign cs) = false := by
      intro cs c hc hpart
      rw [Bool.eq_false_iff]
      intro hnumber
      exact allParts_of_dropSign (allParts_of_isUnsigned hnumber) c hc hpart
    have hi : 'i' ∈ lowerAfter [] s.toList := mem_lowerAfter hdotted (by decide) (by decide)
    rw [hnone hdotted (by decide +kernel), hnone hi (by decide)]
  · rw [← isUnsigned_map, ← dropSign_map, map_numberPart_lowerAfter hdotted, dropSign_map,
      isUnsigned_map]

/-! ## Numbers in front -/

/-- Whether characters without a sign begin with a number. -/
def startsUnsigned : List Char → Bool
  | '.' :: c :: _ => isDecimal c
  | c :: _ => isDecimal c
  | [] => false

theorem startsNumber_eq (s : String) : startsNumber s = startsUnsigned (dropSign s.toList) := rfl

/-- Without a point in front, the first character decides. -/
theorem startsUnsigned_cons_of_ne (h : c ≠ '.') : startsUnsigned (c :: cs) = isDecimal c := by
  unfold startsUnsigned
  split
  · rename_i heq
    exact absurd (List.cons.inj heq).1 h
  · rename_i heq
    rw [(List.cons.inj heq).1]
  · rename_i heq
    cases heq

/-- What begins with a number has a digit or a point and a digit in front. -/
theorem startsUnsigned_cases (h : startsUnsigned cs = true) :
    ∃ c rest, isDecimal c = true ∧ (cs = c :: rest ∨ cs = '.' :: c :: rest) := by
  unfold startsUnsigned at h
  split at h
  · exact ⟨_, _, h, .inr rfl⟩
  · exact ⟨_, _, h, .inl rfl⟩
  · cases h

theorem ne_of_isDecimal (h : isDecimal c = true) : c ≠ '.' ∧ c ≠ '+' ∧ c ≠ '-' := by
  refine ⟨?_, ?_, ?_⟩ <;> (rintro rfl; revert h; decide)

/-- Whether a text begins with a number does not depend on what follows. -/
theorem startsUnsigned_append (h : startsUnsigned cs = true) (rest : List Char) :
    startsUnsigned (cs ++ rest) = true := by
  obtain ⟨c, front, hc, rfl | rfl⟩ := startsUnsigned_cases h
  · rw [List.cons_append, startsUnsigned_cons_of_ne (ne_of_isDecimal hc).1, hc]
  · exact hc

/-- An unsigned number is begun with. -/
theorem startsUnsigned_of_isUnsigned (h : isUnsigned cs = true) : startsUnsigned cs = true := by
  cases cs with
  | nil => cases h
  | cons c cs =>
    by_cases hc : c = '.'
    · subst hc
      cases cs with
      | nil => cases h
      | cons d cs => exact (Bool.and_eq_true_iff.1 h).1
    · rw [isUnsigned_cons_of_ne hc] at h
      rw [startsUnsigned_cons_of_ne hc, (Bool.and_eq_true_iff.1 h).1]

/-- What begins with a number begins with one of a single digit. This is the shortest number there
is, and the one by which the front of a word is recognized. -/
theorem exists_isUnsigned_prefix (h : startsUnsigned cs = true) :
    ∃ front, front <+: cs ∧ isUnsigned front = true ∧ dropSign front = front := by
  obtain ⟨c, rest, hc, rfl | rfl⟩ := startsUnsigned_cases h
  · obtain ⟨hpoint, hplus, hminus⟩ := ne_of_isDecimal hc
    refine ⟨[c], List.prefix_append [c] rest, ?_, ?_⟩
    · rw [isUnsigned_cons_of_ne hpoint, List.dropWhile_cons_of_pos hc, hc]
      rfl
    · rw [dropSign_cons, if_neg (not_or.2 ⟨hplus, hminus⟩)]
  · refine ⟨['.', c], List.prefix_append ['.', c] rest, ?_, rfl⟩
    simp [isUnsigned, hc, isExponent]

/-- A sign is dropped from the front of a text, whatever follows. -/
theorem dropSign_append (h : cs ≠ []) (rest : List Char) : dropSign (cs ++ rest) = dropSign cs ++ rest := by
  obtain ⟨c, cs, rfl⟩ := List.exists_cons_of_ne_nil h
  rw [List.cons_append, dropSign_cons, dropSign_cons]
  split <;> rfl

/-- A sign in front of a text stands in front of its front parts, too. -/
theorem exists_prefix_of_dropSign {front : List Char} (h : front <+: dropSign cs)
    (hfront : dropSign front = front) : ∃ signed, signed <+: cs ∧ dropSign signed = front := by
  cases cs with
  | nil => exact ⟨front, h, hfront⟩
  | cons c cs =>
    rw [dropSign_cons] at h
    split at h
    · rename_i hsign
      exact ⟨c :: front, (List.prefix_cons_inj c).2 h, by rw [dropSign_cons, if_pos hsign]⟩
    · exact ⟨front, h, hfront⟩

/-- A text begins with a number if and only if a front part of it is a number: the test for the one
looks at three characters at most, the test for the other at all of them. -/
theorem startsNumber_iff {word : String} :
    startsNumber word = true ↔ ∃ number : String, number.toList <+: word.toList ∧ isNumber number = true := by
  rw [startsNumber_eq]
  constructor
  · intro h
    obtain ⟨front, hfront, hnumber, hunsigned⟩ := exists_isUnsigned_prefix h
    obtain ⟨signed, hsigned, rfl⟩ := exists_prefix_of_dropSign hfront hunsigned
    refine ⟨String.ofList signed, ?_, ?_⟩
    · rwa [String.toList_ofList]
    · rwa [isNumber, String.toList_ofList]
  · rintro ⟨number, ⟨rest, hrest⟩, hnumber⟩
    -- a number is not empty, so a sign in front of the text is its own
    have hsome : number.toList ≠ [] := by
      intro hnone
      rw [isNumber, hnone] at hnumber
      cases hnumber
    rw [← hrest, dropSign_append hsome]
    exact startsUnsigned_append (startsUnsigned_of_isUnsigned hnumber) rest

/-- What is a number begins with one. -/
theorem startsNumber_of_isNumber {word : String} (h : isNumber word = true) : startsNumber word = true :=
  startsNumber_iff.2 ⟨word, List.prefix_rfl, h⟩

end Utterance.Text
