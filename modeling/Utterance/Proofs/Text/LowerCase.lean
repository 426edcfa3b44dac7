import Utterance.Proofs.Text.Casing

/-!
# Texts in lower case

The lower case of a character has no lower case of its own: the runs of the case table lead to places
that no run holds, and a capital sigma to one of the small ones. So a text in lower case stays as it is.
A space has no case, so the words of a line are changed each by itself. In the basic alphabet lower and
upper case tell the same texts apart.
-/

namespace Utterance.Text

/-- Runs of all characters that have a lower case of their own. -/
def capitalRuns : List CaseRun := ⟨0x41, 0x5A, 1, 32⟩ :: ⟨0x130, 0x130, 1, 0⟩ :: loweringRuns

/-- A character that no run holds is its own lower case, and it is not the capital that has two of
them. -/
theorem lowerChar_of_all {d : Char} (h : ∀ r ∈ capitalRuns, r.holds d.toNat = false) :
    lowerChar d = [d] ∧ d ≠ 'Σ' := by
  -- below 128 the library decides, above it the table of runs does
  have hascii : ∀ n < 128, CaseRun.holds ⟨0x41, 0x5A, 1, 32⟩ n = false →
      (Char.ofNat n).toLower = Char.ofNat n := by decide
  have hdotted : d.toNat ≠ 0x130 := by
    intro heq
    have := h ⟨0x130, 0x130, 1, 0⟩ (by simp [capitalRuns])
    rw [heq] at this
    exact absurd this (by decide)
  have hruns : ∀ r ∈ loweringRuns, r.holds d.toNat = false :=
    fun r hr => h r (List.mem_cons_of_mem _ (List.mem_cons_of_mem _ hr))
  constructor
  · unfold lowerChar
    split
    · rename_i hlt
      have hsame := hascii d.toNat hlt (h _ (List.mem_cons_self ..))
      rw [Char.ofNat_toNat] at hsame
      rw [hsame]
    · rw [mapCase_of_all hruns, Char.ofNat_toNat]
  · rintro rfl
    have hheld : loweringRuns.any (·.holds 'Σ'.toNat) = true := by decide +kernel
    obtain ⟨r, hr, hholds⟩ := List.any_eq_true.1 hheld
    rw [hruns r hr] at hholds
    cases hholds

/-- Whether a run holds none of the characters `a`, `a + stride`, … up to `b`. -/
def CaseRun.misses (r : CaseRun) (a b stride : Nat) : Bool :=
  Nat.blt b r.first || Nat.blt r.last a
    || (Nat.beq stride 2 || Nat.beq a b) && Nat.beq r.stride 2 && Nat.beq ((a + r.first) % 2) 1

/-- A run that misses a stretch of numbers has none of them: the stretch is over before the run
starts, or starts behind its end, or the run takes every second number and the stretch only those
between. -/
theorem CaseRun.holds_eq_false_of_misses {r : CaseRun} {a b stride n : Nat}
    (h : r.misses a b stride = true) (ha : a ≤ n) (hb : n ≤ b) (hn : (n - a) % stride = 0) :
    r.holds n = false := by
  rw [Bool.eq_false_iff]
  intro hholds
  simp only [holds, Bool.and_eq_true, decide_eq_true_eq, beq_iff_eq] at hholds
  simp only [misses, Bool.or_eq_true, Bool.and_eq_true, Nat.blt_eq, Nat.beq_eq] at h
  obtain ⟨⟨hfirst, hlast⟩, hstride⟩ := hholds
  rcases h with (hlt | hlt) | ⟨⟨heven, htwo⟩, hodd⟩
  · omega
  · omega
  · rw [htwo] at hstride
    rcases heven with rfl | rfl
    · omega
    · omega

/-- Whether a run moves its characters to places where no run holds them. -/
def CaseRun.settles (r : CaseRun) : Bool :=
  decide (0 ≤ r.first + r.shift) && capitalRuns.all
    (·.misses (r.first + r.shift).toNat (r.last + r.shift).toNat r.stride)

/-- All runs of letters with a lower case settle: the letters that they lead to have no lower case
of their own. The tables are finite, so this is computed. -/
theorem all_settles : loweringRuns.all CaseRun.settles = true := by decide +kernel

/-- A run that settles leads out of all runs of capitals. The numbers that it leads to are a stretch
with the same step, moved by the shift. -/
theorem CaseRun.settles.holds_eq_false {r : CaseRun} {n : Nat} (h : r.settles = true)
    (hn : r.holds n = true) : ∀ s ∈ capitalRuns, s.holds (n + r.shift).toNat = false := by
  intro s hs
  simp only [settles, Bool.and_eq_true, decide_eq_true_eq, List.all_eq_true] at h
  simp only [holds, Bool.and_eq_true, decide_eq_true_eq, beq_iff_eq] at hn
  obtain ⟨⟨hfirst, hlast⟩, hstride⟩ := hn
  apply holds_eq_false_of_misses (h.2 s hs)
  · omega
  · omega
  · have hsame : (n + r.shift).toNat - (r.first + r.shift).toNat = n - r.first := by omega
    rw [hsame, hstride]

/-- What a letter is lowered to is no capital. The letters of ASCII and the dotted capital are
lowered in their own ways and are left out here. -/
theorem holds_mapCase (n : Nat) (hascii : 128 ≤ n) (hdotted : n ≠ 0x130) :
    ∀ s ∈ capitalRuns, s.holds (mapCase loweringRuns n) = false := by
  rcases mapCase_cases loweringRuns n with ⟨r, hr, hholds, hmoved⟩ | ⟨h, hsame⟩
  · rw [hmoved]
    exact CaseRun.settles.holds_eq_false (List.all_eq_true.1 all_settles r hr) hholds
  · rw [hsame]
    simp only [capitalRuns, List.forall_mem_cons]
    refine ⟨?_, ?_, h⟩
    · simp [CaseRun.holds]
      omega
    · simp [CaseRun.holds]
      omega

/-- No run but that of the basic alphabet holds one of the first characters. -/
theorem holds_of_lt {n : Nat} (hlt : n < 128)
    (hcapital : CaseRun.holds ⟨0x41, 0x5A, 1, 32⟩ n = false) :
    ∀ s ∈ capitalRuns, s.holds n = false := by
  have hfirst : capitalRuns.tail.all (fun s => Nat.ble 128 s.first) = true := by decide +kernel
  refine List.forall_mem_cons.2 ⟨hcapital, fun s hs => ?_⟩
  have hs := Nat.le_of_ble_eq_true (List.all_eq_true.1 hfirst s hs)
  have hbelow : ¬s.first ≤ n := by omega
  rw [CaseRun.holds, decide_eq_false hbelow, Bool.false_and, Bool.false_and]

/-- The lower case of a character has no lower case of its own. The letters of ASCII are computed
one by one, the dotted capital becomes two characters, and the rest is a matter of the runs. -/
theorem holds_of_mem_lowerChar {c d : Char} (hd : d ∈ lowerChar c) :
    ∀ s ∈ capitalRuns, s.holds d.toNat = false := by
  unfold lowerChar at hd
  split at hd
  · rename_i hlt
    have hlower : ∀ n < 128, (Char.ofNat n).toLower.toNat < 128
        ∧ CaseRun.holds ⟨0x41, 0x5A, 1, 32⟩ (Char.ofNat n).toLower.toNat = false := by decide
    obtain ⟨hlt, hcapital⟩ := hlower c.toNat hlt
    rw [Char.ofNat_toNat] at hlt hcapital
    rw [List.mem_singleton.1 hd]
    exact holds_of_lt hlt hcapital
  · rename_i hlarge
    split at hd
    -- the dotted capital becomes an i and a dot above it
    · have hpair : ∀ n ∈ [0x69, 0x307], ∀ s ∈ capitalRuns, s.holds n = false := by decide +kernel
      have hnumbers : ['i', Char.ofNat 0x307].map Char.toNat = [0x69, 0x307] := by decide
      exact hpair d.toNat (hnumbers ▸ List.mem_map_of_mem hd)
    · rename_i hdotted
      rw [List.mem_singleton.1 hd]
      by_cases hvalid : (mapCase loweringRuns c.toNat).isValidChar
      · have hchar : Char.ofNat (mapCase loweringRuns c.toNat) = Char.ofNatAux _ hvalid :=
          dif_pos hvalid
        rw [hchar]
        exact holds_mapCase c.toNat (Nat.le_of_not_lt hlarge) hdotted
      · have hfirst : (Char.ofNat (mapCase loweringRuns c.toNat)).toNat = 0 :=
          congrArg Char.toNat (dif_neg hvalid)
        rw [hfirst]
        exact holds_of_lt (by decide) (by decide)

/-- A list without capitals stays as it is in lower case, whatever comes before it. -/
theorem lowerAfter_of_forall {cs : List Char} (before : List Char)
    (h : ∀ c ∈ cs, ∀ s ∈ capitalRuns, s.holds c.toNat = false) : lowerAfter before cs = cs := by
  induction cs generalizing before with
  | nil => rfl
  | cons c cs ih =>
    obtain ⟨hsame, hsigma⟩ := lowerChar_of_all (h c (List.mem_cons_self ..))
    rw [lowerAfter, if_neg hsigma, hsame, ih _ fun d hd => h d (List.mem_cons_of_mem _ hd)]
    rfl

/-- A list in lower case has no capitals. -/
theorem holds_of_mem_lowerAfter {before cs : List Char} {d : Char} (hd : d ∈ lowerAfter before cs) :
    ∀ s ∈ capitalRuns, s.holds d.toNat = false := by
  induction cs generalizing before with
  | nil => cases hd
  | cons c cs ih =>
    rw [lowerAfter] at hd
    split at hd
    · rcases List.mem_cons.1 hd with rfl | hd
      -- the one capital whose lower case depends on what is around it
      · have hsigmas : ∀ n ∈ ['ς'.toNat, 'σ'.toNat], ∀ s ∈ capitalRuns, s.holds n = false := by
          decide +kernel
        split
        · exact hsigmas _ (List.mem_cons_self ..)
        · exact hsigmas _ (List.mem_cons_of_mem _ (List.mem_cons_self ..))
      · exact ih hd
    · rcases List.mem_append.1 hd with hd | hd
      · exact holds_of_mem_lowerChar hd
      · exact ih hd

/-- A text in lower case is its own lower case. -/
theorem lower_lower (s : String) : lower (lower s) = lower s := by
  have hsmall : ∀ d ∈ (lower s).toList, ∀ r ∈ capitalRuns, r.holds d.toNat = false := by
    intro d hd
    rw [lower, String.toList_ofList] at hd
    exact holds_of_mem_lowerAfter hd
  rw [lower, lowerAfter_of_forall [] hsmall, String.ofList_toList]

/-! ## Lengths -/

/-- Every character but the dotted capital is lowered to one character. -/
theorem length_lowerChar {c : Char} (h : c ≠ 'İ') : (lowerChar c).length = 1 := by
  unfold lowerChar
  split
  · rfl
  · split
    · rename_i hdotted
      rw [← Char.ofNat_toNat c, hdotted] at h
      exact absurd rfl h
    · rfl

/-- Without the dotted capital a list is as long as its lower case. -/
theorem length_lowerAfter {before cs : List Char} (h : 'İ' ∉ cs) :
    (lowerAfter before cs).length = cs.length := by
  induction cs generalizing before with
  | nil => rfl
  | cons c cs ih =>
    rw [List.mem_cons, not_or] at h
    rw [lowerAfter]
    split
    · rw [List.length_cons, List.length_cons, ih h.2]
    · rw [List.length_append, length_lowerChar (Ne.symm h.1), ih h.2, List.length_cons, Nat.add_comm]

/-- Only one capital becomes two characters. -/
theorem length_lower {s : String} (h : 'İ' ∉ s.toList) : (lower s).length = s.length := by
  rw [lower, String.length_ofList, length_lowerAfter h, String.length_toList]

/-- A character is lowered to two characters at most. -/
theorem length_lowerChar_le (c : Char) : (lowerChar c).length ≤ 2 := by
  unfold lowerChar
  split
  · simp
  · split <;> simp

/-- Lower case makes a list twice as long at most, as one capital alone has a lower case of two
characters. -/
theorem length_lowerAfter_le (before cs : List Char) : (lowerAfter before cs).length ≤ 2 * cs.length := by
  induction cs generalizing before with
  | nil => simp [lowerAfter]
  | cons c cs ih =>
    have hrest := ih (c :: before)
    rw [lowerAfter]
    split
    · simp only [List.length_cons]
      omega
    · have hchar := length_lowerChar_le c
      simp only [List.length_append, List.length_cons]
      omega

/-- In lower case a text is at most twice as long. -/
theorem length_lower_le (s : String) : (lower s).length ≤ 2 * s.length := by
  rw [lower, String.length_ofList, ← String.length_toList]
  exact length_lowerAfter_le [] s.toList

/-- The lower case of a character that stands in a text stands in the lower case of the text. -/
theorem mem_lowerAfter {before cs : List Char} {c d : Char} (hc : c ∈ cs) (hsigma : c ≠ 'Σ')
    (hd : d ∈ lowerChar c) : d ∈ lowerAfter before cs := by
  induction cs generalizing before with
  | nil => cases hc
  | cons e cs ih =>
    rw [lowerAfter]
    rcases List.mem_cons.1 hc with rfl | hc
    · rw [if_neg hsigma]
      exact List.mem_append_left _ hd
    -- the first character is a sigma or not; either way the rest is lowered behind it
    · split
      · exact List.mem_cons_of_mem _ (ih hc)
      · exact List.mem_append_right _ (ih hc)

/-! ## Words in lower case -/

/-- What lies beyond a space does not show. -/
theorem facesCased_append_space (cs rest : List Char) :
    facesCased (cs ++ ' ' :: rest) = facesCased cs := by
  have hignorable : isCaseIgnorable ' ' = false := by decide +kernel
  have hcased : isCased ' ' = false := by decide +kernel
  induction cs with
  | nil => simp [facesCased, hignorable, hcased]
  | cons c cs ih =>
    -- what faces the place is the first character that is not ignorable, or the space if there is
    -- none
    unfold facesCased at ih ⊢
    rw [List.cons_append, List.dropWhile_cons, List.dropWhile_cons]
    cases isCaseIgnorable c with
    | true => exact ih
    | false => rfl

/-- What comes before a list matters to its lower case only by whether a letter with a case is near.
That tells the two forms of the small sigma. -/
theorem lowerAfter_congr {before before' : List Char}
    (h : ∀ cs, facesCased (cs ++ before) = facesCased (cs ++ before')) (cs : List Char) :
    lowerAfter before cs = lowerAfter before' cs := by
  induction cs generalizing before before' with
  | nil => rfl
  | cons c cs ih =>
    have hrest : lowerAfter (c :: before) cs = lowerAfter (c :: before') cs := by
      apply ih
      intro ds
      simpa using h (ds ++ [c])
    have hfaces : facesCased before = facesCased before' := h []
    rw [lowerAfter, lowerAfter, hrest, hfaces]

/-- The two sides of a space are changed each by itself. -/
theorem lowerAfter_append_space (before cs rest : List Char) :
    lowerAfter before (cs ++ ' ' :: rest) = lowerAfter before cs ++ ' ' :: lowerAfter [] rest := by
  induction cs generalizing before with
  | nil =>
    have hspace : lowerChar ' ' = [' '] := by decide
    -- behind a space a sigma sees no cased character before it, as at the start of a text
    have hrest : lowerAfter (' ' :: before) rest = lowerAfter [] rest := by
      apply lowerAfter_congr
      intro ds
      rw [facesCased_append_space, List.append_nil]
    rw [List.nil_append, lowerAfter, lowerAfter, if_neg (by decide), hspace, hrest]
    rfl
  | cons c cs ih =>
    rw [List.cons_append, lowerAfter, lowerAfter, facesCased_append_space, ih]
    split
    · rfl
    · rw [List.append_assoc]

/-- Lists with spaces between them are lowered one by one: no space is part of a word. -/
theorem lowerAfter_intercalate (ws : List (List Char)) :
    lowerAfter [] ([' '].intercalate ws) = [' '].intercalate (ws.map (lowerAfter [])) := by
  induction ws with
  | nil => rfl
  | cons w ws ih =>
    cases ws with
    | nil => simp
    | cons v ws =>
      rw [List.intercalate_cons_cons, List.append_assoc, List.singleton_append,
        lowerAfter_append_space, ih, List.map_cons, List.map_cons, List.map_cons,
        List.intercalate_cons_cons, List.append_assoc]
      rfl

/-- The words of a line are changed each by itself. -/
theorem lower_intercalate (ws : List String) :
    lower (" ".intercalate ws) = " ".intercalate (ws.map lower) := by
  have htexts : ∀ ws : List String,
      (" ".intercalate ws).toList = [' '].intercalate (ws.map String.toList) :=
    fun _ => String.toList_intercalate
  rw [← String.toList_inj, htexts, lower, String.toList_ofList, htexts, lowerAfter_intercalate]
  simp [lower, Function.comp_def]

/-! ## The basic alphabet -/

/-- A list of ASCII characters is lowered character by character. -/
theorem lowerAfter_of_ascii {cs : List Char} (before : List Char) (h : ∀ c ∈ cs, c.toNat < 128) :
    lowerAfter before cs = cs.map Char.toLower := by
  induction cs generalizing before with
  | nil => rfl
  | cons c cs ih =>
    have hc := h c (List.mem_cons_self ..)
    -- a sigma is the only character that is lowered by its place, and it is no ASCII character
    have hsigma : c ≠ 'Σ' := by
      rintro rfl
      exact absurd hc (by decide)
    rw [lowerAfter, if_neg hsigma, lowerChar, if_pos hc, ih _ fun d hd => h d (List.mem_cons_of_mem _ hd)]
    rfl

/-- A list of ASCII characters is put in upper case character by character. -/
theorem flatMap_upperChar_of_ascii {cs : List Char} (h : ∀ c ∈ cs, c.toNat < 128) :
    cs.flatMap upperChar = cs.map Char.toUpper := by
  induction cs with
  | nil => rfl
  | cons c cs ih =>
    rw [List.flatMap_cons, upperChar, if_pos (h c (List.mem_cons_self ..)),
      ih fun d hd => h d (List.mem_cons_of_mem _ hd)]
    rfl

/-- For ASCII characters the two cases stay in ASCII and lead back to each other. -/
theorem case_of_ascii {c : Char} (h : c.toNat < 128) :
    c.toLower.toNat < 128 ∧ c.toUpper.toNat < 128 ∧ c.toLower.toUpper = c.toUpper
      ∧ c.toUpper.toLower = c.toLower := by
  have hall : ∀ n < 128, let c := Char.ofNat n
      c.toLower.toNat < 128 ∧ c.toUpper.toNat < 128 ∧ c.toLower.toUpper = c.toUpper
        ∧ c.toUpper.toLower = c.toLower := by
    decide
  have hc := hall c.toNat h
  rwa [Char.ofNat_toNat] at hc

/-- Names in the basic alphabet that are the same in upper case are the same in lower case, and the
other way round: either case can be had from the other. -/
theorem upper_eq_iff_lower_eq {s t : String} (hs : ∀ c ∈ s.toList, c.toNat < 128)
    (ht : ∀ c ∈ t.toList, c.toNat < 128) : upper s = upper t ↔ lower s = lower t := by
  have hupper : ∀ {s : String}, (∀ c ∈ s.toList, c.toNat < 128) →
      (upper s).toList = s.toList.map Char.toUpper := by
    intro s hs
    rw [upper, String.toList_ofList, flatMap_upperChar_of_ascii hs]
  have hlower : ∀ {s : String}, (∀ c ∈ s.toList, c.toNat < 128) →
      (lower s).toList = s.toList.map Char.toLower := by
    intro s hs
    rw [lower, String.toList_ofList, lowerAfter_of_ascii [] hs]
  -- on ASCII either case can be had back from the other
  have hback : ∀ {s : String}, (∀ c ∈ s.toList, c.toNat < 128) →
      (s.toList.map Char.toUpper).map Char.toLower = s.toList.map Char.toLower
        ∧ (s.toList.map Char.toLower).map Char.toUpper = s.toList.map Char.toUpper := by
    intro s hs
    simp only [List.map_map]
    exact ⟨List.map_congr_left fun c hc => (case_of_ascii (hs c hc)).2.2.2,
      List.map_congr_left fun c hc => (case_of_ascii (hs c hc)).2.2.1⟩
  rw [← String.toList_inj, ← String.toList_inj, hupper hs, hupper ht, hlower hs, hlower ht]
  constructor
  · intro h
    rw [← (hback hs).1, h, (hback ht).1]
  · intro h
    rw [← (hback hs).2, h, (hback ht).2]

end Utterance.Text
