import Utterance.Text.Blank
import Utterance.Text.Casing

/-!
# Characters without case

Blanks, brackets and other marks stay as they are in lower case, and no other character becomes one of
them. So texts that are the same in lower case have such characters at the same places, though other
characters may become two.
-/

namespace Utterance.Text

/-! ## Steady characters -/

/-- A character that stays as it is in lower case and that no other character becomes. -/
structure Steady (d : Char) : Prop where
  stays : lowerChar d = [d]
  only : ∀ {c : Char}, d ∈ lowerChar c → c = d
  ne_sigma : d ≠ 'Σ' ∧ d ≠ 'σ' ∧ d ≠ 'ς'

/-- Every character is lowered to something. -/
theorem lowerChar_ne_nil (c : Char) : lowerChar c ≠ [] := by
  unfold lowerChar
  split
  · exact List.cons_ne_nil _ _
  · split <;> exact List.cons_ne_nil _ _

/-- Lower case leaves no list empty that was not. -/
theorem lowerAfter_ne_nil {before cs : List Char} (h : cs ≠ []) : lowerAfter before cs ≠ [] := by
  cases cs with
  | nil => exact absurd rfl h
  | cons c cs =>
    rw [lowerAfter]
    split
    · exact List.cons_ne_nil _ _
    · exact List.append_ne_nil_of_left_ne_nil (lowerChar_ne_nil c) _

/-- Only the empty text is empty in lower case. -/
theorem lower_eq_empty_iff {s : String} : lower s = "" ↔ s = "" := by
  constructor
  · intro h
    have hnil : lowerAfter [] s.toList = [] := by
      rw [← String.toList_ofList (l := lowerAfter [] s.toList)]
      exact congrArg String.toList h
    exact String.toList_eq_nil_iff.1 (Classical.not_not.1 fun hne => lowerAfter_ne_nil hne hnil)
  · rintro rfl
    rfl

/-- A number that stands for no character stands for the first one instead. -/
theorem toNat_of_ofNat_eq {n : Nat} {c : Char} (h : Char.ofNat n = c) (hc : c.toNat ≠ 0) :
    n = c.toNat := by
  subst h
  by_cases hvalid : n.isValidChar
  · have hchar : Char.ofNat n = Char.ofNatAux n hvalid := dif_pos hvalid
    rw [hchar]
    rfl
  · have hfirst : (Char.ofNat n).toNat = 0 := congrArg Char.toNat (dif_neg hvalid)
    exact absurd hfirst hc

/-- Whether no run moves the character with number `n`, or another one to its place. -/
def unmoved (n : Nat) : Bool :=
  loweringRuns.all fun r =>
    !r.holds n && ((n : Int) < r.first + r.shift || (r.last + r.shift : Int) < n)

/-- A number in none of the runs is mapped to itself. -/
theorem mapCase_of_all {runs : List CaseRun} {n : Nat} (h : ∀ r ∈ runs, r.holds n = false) :
    mapCase runs n = n := by
  induction runs with
  | nil => rfl
  | cons r runs ih =>
    rw [mapCase, h r (List.mem_cons_self ..), if_neg (by decide)]
    exact ih fun r hr => h r (List.mem_cons_of_mem _ hr)

/-- A character is moved by the run that holds it, or stays where it is. Runs are tried in order and
the first that holds the number counts. -/
theorem mapCase_cases (runs : List CaseRun) (n : Nat) :
    (∃ r ∈ runs, r.holds n = true ∧ mapCase runs n = (n + r.shift).toNat)
      ∨ ((∀ r ∈ runs, r.holds n = false) ∧ mapCase runs n = n) := by
  induction runs with
  | nil => exact .inr ⟨nofun, rfl⟩
  | cons r runs ih =>
    rw [mapCase]
    split
    · rename_i hholds
      exact .inl ⟨r, List.mem_cons_self .., hholds, rfl⟩
    · rename_i hholds
      rcases ih with ⟨s, hs, hmoved⟩ | ⟨hnone, hsame⟩
      · exact .inl ⟨s, List.mem_cons_of_mem _ hs, hmoved⟩
      · exact .inr ⟨List.forall_mem_cons.2 ⟨(Bool.not_eq_true _).mp hholds, hnone⟩, hsame⟩

/-- A number that none of the runs leads to is only what itself is mapped to. -/
theorem eq_of_mapCase_eq {runs : List CaseRun} {m n : Nat} (hn : n ≠ 0)
    (h : ∀ r ∈ runs, (n : Int) < r.first + r.shift ∨ (r.last + r.shift : Int) < n)
    (hm : mapCase runs m = n) : m = n := by
  induction runs with
  | nil => exact hm
  | cons r runs ih =>
    rw [mapCase] at hm
    split at hm
    · rename_i hholds
      simp only [CaseRun.holds, Bool.and_eq_true, decide_eq_true_eq] at hholds
      have := h r (List.mem_cons_self ..)
      omega
    · exact ih (fun r hr => h r (List.mem_cons_of_mem _ hr)) hm

/-- Whether the character with number `n` is steady. -/
def isSteady (n : Nat) : Bool :=
  n != 0 && [0x69, 0x130, 0x307, 0x3A3, 0x3C2, 0x3C3].all (· != n) && unmoved n
    && (128 ≤ n || (Char.ofNat n).toLower == Char.ofNat n)
    && (List.range 128).all fun m => (Char.ofNat m).toLower != Char.ofNat n || m == n

/-- A character that passes the test of the tables is steady. It stays as it is, since it is in no
run of capitals, and no other character becomes it, since no run leads to it; for ASCII both are
computed. -/
theorem steady_of_isSteady {d : Char} (h : isSteady d.toNat = true) : Steady d := by
  simp only [isSteady, unmoved, Bool.and_eq_true, bne_iff_ne, List.all_eq_true, Bool.or_eq_true,
    decide_eq_true_eq, beq_iff_eq, Bool.not_eq_true', List.mem_range, Char.ofNat_toNat] at h
  obtain ⟨⟨⟨⟨hzero, hapart⟩, hruns⟩, hself⟩, hascii⟩ := h
  have hne : ∀ n ∈ [0x69, 0x130, 0x307, 0x3A3, 0x3C2, 0x3C3], d ≠ Char.ofNat n := by
    rintro n hn rfl
    have hnumber : ∀ n ∈ [0x69, 0x130, 0x307, 0x3A3, 0x3C2, 0x3C3], (Char.ofNat n).toNat = n := by decide
    exact hapart n hn (hnumber n hn).symm
  -- its own small letter, and no other character's
  refine ⟨?_, ?_, hne _ (by decide), hne _ (by decide), hne _ (by decide)⟩
  · unfold lowerChar
    split
    · rename_i hlt
      rw [hself.resolve_left (by omega)]
    · rw [if_neg (hapart 0x130 (by decide)).symm, mapCase_of_all fun r hr => (hruns r hr).1,
        Char.ofNat_toNat]
  · intro c hc
    unfold lowerChar at hc
    split at hc
    · rename_i hlt
      have hsame := (hascii c.toNat hlt).resolve_left (by
        rw [Char.ofNat_toNat]
        exact fun hne => hne (List.mem_singleton.1 hc).symm)
      rw [← Char.ofNat_toNat c, hsame, Char.ofNat_toNat]
    · split at hc
      · simp only [List.mem_cons, List.not_mem_nil, or_false] at hc
        rcases hc with hc | hc
        · exact absurd hc (hne 0x69 (by decide))
        · exact absurd hc (hne 0x307 (by decide))
      · have hmoved := toNat_of_ofNat_eq (List.mem_singleton.1 hc).symm hzero
        have hsame := eq_of_mapCase_eq hzero (fun r hr => (hruns r hr).2) hmoved
        rw [← Char.ofNat_toNat c, hsame, Char.ofNat_toNat]

/-- The numbers of the blank characters. -/
def blankNumbers : List Nat :=
  List.range' 9 5 ++ List.range' 28 5 ++ [0x85, 0xA0, 0x1680] ++ List.range' 0x2000 11
    ++ [0x2028, 0x2029, 0x202F, 0x205F, 0x3000]

/-- The blank characters have the listed numbers. -/
theorem mem_blankNumbers {c : Char} (h : isBlank c = true) : c.toNat ∈ blankNumbers := by
  simp only [isBlank, Bool.or_eq_true, Bool.and_eq_true, decide_eq_true_eq, beq_iff_eq] at h
  simp only [blankNumbers, List.mem_append, List.mem_range'_1, List.mem_cons, List.not_mem_nil,
    or_false]
  omega

theorem steady_of_isBlank {c : Char} (h : isBlank c = true) : Steady c := by
  have hall : ∀ n ∈ blankNumbers, isSteady n = true := by decide +kernel
  exact steady_of_isSteady (hall _ (mem_blankNumbers h))

/-- The marks that comments, brackets, line ends and wildcards are made of. -/
theorem steady_of_mem {c : Char} (h : c ∈ [';', '/', ']', '>', '\n', '\r', '#']) : Steady c := by
  have hall : ∀ n ∈ [';', '/', ']', '>', '\n', '\r', '#'].map Char.toNat, isSteady n = true := by
    decide +kernel
  exact steady_of_isSteady (hall _ (List.mem_map_of_mem h))

/-! ## Places of steady characters -/

namespace Steady

variable {d : Char} {before cs u v : List Char}

theorem lowerAfter_cons (h : Steady d) (before cs : List Char) :
    lowerAfter before (d :: cs) = d :: lowerAfter (d :: before) cs := by
  rw [lowerAfter, if_neg h.ne_sigma.1, h.stays, List.singleton_append]

/-- A steady character keeps its place among the others. What stands in front of it is lowered by
itself, and is empty afterwards only if it was. -/
theorem exists_lowerAfter_append (h : Steady d) (a before cs : List Char) :
    ∃ u before', lowerAfter before (a ++ d :: cs) = u ++ d :: lowerAfter before' cs
      ∧ (a = [] → u = []) := by
  induction a generalizing before with
  | nil => exact ⟨[], _, h.lowerAfter_cons before cs, fun _ => rfl⟩
  | cons c a ih =>
    obtain ⟨u, before', hu, -⟩ := ih (c :: before)
    rw [List.cons_append, lowerAfter, hu]
    split
    · exact ⟨_ :: u, before', rfl, nofun⟩
    · exact ⟨lowerChar c ++ u, before', (List.append_assoc ..).symm, nofun⟩

/-- Another character becomes characters of which none is the steady one. -/
theorem exists_lowerAfter_cons (h : Steady d) (hc : c ≠ d) (before cs : List Char) :
    ∃ w, lowerAfter before (c :: cs) = w ++ lowerAfter (c :: before) cs ∧ w ≠ [] ∧ d ∉ w := by
  rw [lowerAfter]
  split
  · refine ⟨[_], rfl, List.cons_ne_nil _ _, ?_⟩
    rw [List.mem_singleton]
    split
    · exact h.ne_sigma.2.2
    · exact h.ne_sigma.2.1
  · exact ⟨lowerChar c, rfl, lowerChar_ne_nil c, fun hd => hc (h.only hd)⟩

/-- A steady character of a text in lower case comes from the text, and what follows it as well. The
induction is on the part before it, for any text that is lowered to it. -/
theorem exists_of_lowerAfter_eq (h : Steady d) (hlower : lowerAfter before cs = u ++ d :: v) :
    ∃ a rest before', cs = a ++ d :: rest ∧ v = lowerAfter before' rest ∧ (u = [] → a = []) := by
  induction cs generalizing before u with
  | nil => simp [lowerAfter] at hlower
  | cons c cs ih =>
    by_cases hc : c = d
    · subst hc
      rw [h.lowerAfter_cons] at hlower
      cases u with
      | nil => exact ⟨[], cs, _, rfl, (List.cons.inj hlower).2.symm, fun _ => rfl⟩
      | cons e u =>
        obtain ⟨a, rest, before', rfl, hv, -⟩ := ih (List.cons.inj hlower).2
        exact ⟨c :: a, rest, before', rfl, hv, nofun⟩
    -- another character becomes something in which the steady one does not occur
    · obtain ⟨w, hw, hne, hnot⟩ := h.exists_lowerAfter_cons hc before cs
      rw [hw] at hlower
      rcases List.append_eq_append_iff.1 hlower with ⟨u', rfl, hrest⟩ | ⟨w', rfl, hrest⟩
      · obtain ⟨a, rest, before', rfl, hv, -⟩ := ih hrest
        refine ⟨c :: a, rest, before', rfl, hv, fun hnil => ?_⟩
        exact absurd (List.append_eq_nil_iff.1 hnil).1 hne
      · cases w' with
        | nil =>
          obtain ⟨a, rest, before', rfl, hv, -⟩ := ih (u := []) hrest.symm
          refine ⟨c :: a, rest, before', rfl, hv, ?_⟩
          rintro rfl
          exact absurd rfl hne
        | cons e w' =>
          rw [List.cons_append] at hrest
          rw [(List.cons.inj hrest).1] at hnot
          exact absurd (List.mem_append_right _ (List.mem_cons_self ..)) hnot

end Steady

/-! ## Texts that are the same in lower case -/

/-- Texts that are the same in lower case, each after some characters of its own. -/
def SameLower (xs ys : List Char) : Prop :=
  ∃ before before', lowerAfter before xs = lowerAfter before' ys

namespace SameLower

variable {xs ys a rest : List Char} {d : Char}

theorem symm (h : SameLower xs ys) : SameLower ys xs := by
  obtain ⟨before, before', h⟩ := h
  exact ⟨before', before, h.symm⟩

theorem eq_nil (h : SameLower [] ys) : ys = [] := by
  obtain ⟨before, before', h⟩ := h
  exact Classical.not_not.1 fun hne => lowerAfter_ne_nil hne h.symm

/-- A steady character stands in both texts, and what follows it there is the same in lower case, too. -/
theorem exists_append (h : SameLower (a ++ d :: rest) ys) (hd : Steady d) :
    ∃ a' rest', ys = a' ++ d :: rest' ∧ SameLower rest rest' ∧ (a = [] → a' = []) := by
  obtain ⟨before, before', h⟩ := h
  obtain ⟨u, next, hu, hnil⟩ := hd.exists_lowerAfter_append a before rest
  rw [hu] at h
  obtain ⟨a', rest', next', hy, hrest, hnil'⟩ := hd.exists_of_lowerAfter_eq h.symm
  exact ⟨a', rest', hy, ⟨next, next', hrest⟩, fun ha => hnil' (hnil ha)⟩

/-- Lists with one lower case have the same steady characters. -/
theorem mem (h : SameLower xs ys) (hd : Steady d) (hx : d ∈ xs) : d ∈ ys := by
  obtain ⟨a, rest, rfl⟩ := List.append_of_mem hx
  obtain ⟨a', rest', rfl, -, -⟩ := h.exists_append hd
  exact List.mem_append_right _ (List.mem_cons_self ..)

/-- Lists with one lower case begin with the same steady character. -/
theorem head? (h : SameLower xs ys) (hd : Steady d) (hx : xs.head? = some d) : ys.head? = some d := by
  obtain ⟨rest, rfl⟩ := List.head?_eq_some_iff.1 hx
  obtain ⟨a', rest', rfl, -, hnil⟩ := exists_append (a := []) h hd
  rw [hnil rfl]
  rfl

/-- Lists with one lower case end with the same steady character. -/
theorem getLast? (h : SameLower xs ys) (hd : Steady d) (hx : xs.getLast? = some d) :
    ys.getLast? = some d := by
  obtain ⟨a, rfl⟩ := List.getLast?_eq_some_iff.1 hx
  obtain ⟨a', rest', rfl, hrest, -⟩ := h.exists_append hd
  rw [hrest.eq_nil, List.getLast?_concat]

/-- Two steady characters in a row stand in both texts. -/
theorem exists_twice (h : SameLower (a ++ d :: d :: rest) ys) (hd : Steady d) :
    ∃ a' rest', ys = a' ++ d :: d :: rest' := by
  obtain ⟨a', rest', rfl, hrest, -⟩ := h.exists_append hd
  obtain ⟨none, rest'', rfl, -, hnil⟩ := exists_append (a := []) hrest hd
  rw [hnil rfl]
  exact ⟨a', rest'', rfl⟩

end SameLower

/-- Strings with one lower case have it as lists, too. -/
theorem sameLower_of_lower_eq {s t : String} (h : lower s = lower t) :
    SameLower s.toList t.toList := by
  have hlists := congrArg String.toList h
  rw [lower, lower, String.toList_ofList, String.toList_ofList] at hlists
  exact ⟨[], [], hlists⟩

end Utterance.Text
