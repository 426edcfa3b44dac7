import Mathlib.Data.List.Chain
import Utterance.Proofs.Rule.Signs

/-!
# What sugar stands for

What a row of signs denotes is said sign by sign: a word denotes itself, a group in parentheses what is
inside it or nothing, `?` one wildcard or none, `*` any number of wildcards up to the limit, `+` at
least one of them; and signs in a row denote what they denote one after the other.

The plain variants of a line are made by rewriting its text until no sugar is left. If parentheses nest
and every question mark stands apart from words, their words are exactly what the line denotes.
-/

namespace Utterance.Sugar

/-! ## Denotation -/

/-- How many wildcards a sign may stand for. -/
def Sign.Allows (limit : Nat) : Sign → Nat → Prop
  | .maybe, n => n ≤ 1
  | .star, n => n ≤ limit
  | .plus, n => 1 ≤ n ∧ n ≤ limit
  | _, _ => False

/-- The rows of tokens that a row of signs denotes. -/
inductive Denotes (limit : Nat) : List Sign → List String → Prop where
  | nil : Denotes limit [] []
  | word {w : String} {ss : List Sign} {ts : List String} (rest : Denotes limit ss ts) :
      Denotes limit (.word w :: ss) (w :: ts)
  | wild {s : Sign} {ss : List Sign} {n : Nat} {ts : List String} (count : s.Allows limit n)
      (rest : Denotes limit ss ts) : Denotes limit (s :: ss) (List.replicate n "#" ++ ts)
  | present {ss rs : List Sign} {us ts : List String} (inside : Denotes limit ss us)
      (rest : Denotes limit rs ts) : Denotes limit (.opens :: ss ++ .closes :: rs) (us ++ ts)
  | absent {ss rs : List Sign} {ts : List String} (inside : Nested ss)
      (rest : Denotes limit rs ts) : Denotes limit (.opens :: ss ++ .closes :: rs) ts

variable {limit : Nat} {ss rs : List Sign} {ts : List String}

theorem Sign.Allows.ne_opens {s : Sign} {n : Nat} (h : s.Allows limit n) : s ≠ .opens := by
  rintro rfl
  exact h

theorem Sign.Allows.ne_closes {s : Sign} {n : Nat} (h : s.Allows limit n) : s ≠ .closes := by
  rintro rfl
  exact h

/-- Only signs that nest denote anything. -/
theorem Denotes.nested (h : Denotes limit ss ts) : Nested ss := by
  induction h with
  | nil => exact .nil
  | word _ ih => exact .cons (by simp) (by simp) ih
  | wild count _ ih => exact .cons count.ne_opens count.ne_closes ih
  | present _ _ ihInside ih => exact .group ihInside ih
  | absent inside _ ih => exact .group inside ih

/-- What two rows of signs denote may be put together. The second row comes last, so the groups of
the first are passed as they are. -/
theorem Denotes.append {us : List String} (h : Denotes limit ss us) (h' : Denotes limit rs ts) :
    Denotes limit (ss ++ rs) (us ++ ts) := by
  induction h with
  | nil => exact h'
  | word _ ih => exact .word ih
  | wild count _ ih =>
    rw [List.append_assoc]
    exact .wild count ih
  -- a group that is read goes before its own rest, so the rows have to be bracketed anew
  | present inside _ _ ih =>
    have hpresent := Denotes.present inside ih
    simpa using hpresent
  | absent inside _ ih =>
    have habsent := Denotes.absent inside ih
    simpa using habsent

/-- No signs denote no words. -/
theorem denotes_nil_iff : Denotes limit [] ts ↔ ts = [] := by
  constructor
  · intro h
    cases h
    rfl
  · rintro rfl
    exact .nil

/-- A word denotes itself. -/
theorem denotes_word_iff {w : String} :
    Denotes limit (.word w :: ss) ts ↔ ∃ vs, ts = w :: vs ∧ Denotes limit ss vs := by
  constructor
  · intro h
    cases h with
    | word rest => exact ⟨_, rfl, rest⟩
    | wild count _ => exact count.elim
  · rintro ⟨vs, rfl, rest⟩
    exact .word rest

/-- A wildcard sign denotes as many wildcards as it allows. The three signs differ only in that
number, so they are treated as one here. -/
theorem denotes_wild_iff {s : Sign} (hs : s = .maybe ∨ s = .star ∨ s = .plus) :
    Denotes limit (s :: ss) ts
      ↔ ∃ n vs, s.Allows limit n ∧ ts = List.replicate n "#" ++ vs ∧ Denotes limit ss vs := by
  constructor
  · intro h
    cases h with
    | word _ => simp at hs
    | wild count rest => exact ⟨_, _, count, rfl, rest⟩
    | present _ _ => simp at hs
    | absent _ _ => simp at hs
  · rintro ⟨n, vs, count, rfl, rest⟩
    exact .wild count rest

/-- A group denotes what is inside it or nothing, before what the rest denotes. -/
theorem denotes_group_iff (hss : Nested ss) :
    Denotes limit (.opens :: ss ++ .closes :: rs) ts
      ↔ (∃ us vs, ts = us ++ vs ∧ Denotes limit ss us ∧ Denotes limit rs vs)
        ∨ Denotes limit rs ts := by
  constructor
  · intro h
    -- the row may be cut in another place a priori, but a parenthesis has one counterpart only
    generalize heq : Sign.opens :: ss ++ .closes :: rs = all at h
    cases h with
    | nil => cases heq
    | word _ => cases heq
    | wild count _ =>
      cases heq
      exact count.elim
    | present inside rest =>
      simp only [List.cons_append, List.cons.injEq, true_and] at heq
      obtain ⟨rfl, rfl⟩ := hss.closes_unique inside.nested heq
      exact .inl ⟨_, _, rfl, inside, rest⟩
    | absent inside rest =>
      simp only [List.cons_append, List.cons.injEq, true_and] at heq
      obtain ⟨rfl, rfl⟩ := hss.closes_unique inside heq
      exact .inr rest
  · rintro (⟨us, vs, rfl, inside, rest⟩ | rest)
    · exact .present inside rest
    · exact .absent hss rest

/-- Signs in a row denote what they denote one after the other. What the whole denotes can be cut
where the first row ends, since its parentheses nest and no group reaches beyond it. -/
theorem denotes_append_iff (hss : Nested ss) :
    Denotes limit (ss ++ rs) ts
      ↔ ∃ us vs, ts = us ++ vs ∧ Denotes limit ss us ∧ Denotes limit rs vs := by
  constructor
  · intro h
    induction hss generalizing ts with
    | nil => exact ⟨[], ts, rfl, .nil, h⟩
    | @cons s _ opens closes _ ih =>
      rw [List.cons_append] at h
      by_cases hword : ∃ w, s = .word w
      · obtain ⟨w, rfl⟩ := hword
        obtain ⟨ts, rfl, hrest⟩ := denotes_word_iff.1 h
        obtain ⟨us, vs, rfl, hus, hvs⟩ := ih hrest
        exact ⟨w :: us, vs, rfl, .word hus, hvs⟩
      · have hwild : s = .maybe ∨ s = .star ∨ s = .plus := by
          cases s <;> simp_all
        obtain ⟨n, ts, count, rfl, hrest⟩ := (denotes_wild_iff hwild).1 h
        obtain ⟨us, vs, rfl, hus, hvs⟩ := ih hrest
        exact ⟨_, vs, (List.append_assoc ..).symm, .wild count hus, hvs⟩
    | @group inner rest inside _ _ ih =>
      -- the bracket that closes the group is before all that is appended
      have hassoc : (.opens :: inner ++ .closes :: rest) ++ rs
          = .opens :: inner ++ .closes :: (rest ++ rs) := by simp
      rw [hassoc, denotes_group_iff inside] at h
      rcases h with ⟨us, ts, rfl, hinside, hrest⟩ | hrest
      · obtain ⟨us', vs, rfl, hus, hvs⟩ := ih hrest
        exact ⟨_, vs, (List.append_assoc ..).symm, .present hinside hus, hvs⟩
      · obtain ⟨us', vs, rfl, hus, hvs⟩ := ih hrest
        exact ⟨us', vs, rfl, .absent inside hus, hvs⟩
  · rintro ⟨us, vs, rfl, hus, hvs⟩
    exact hus.append hvs

/-- Several wildcards denote themselves. -/
theorem denotes_replicate_append_iff (n : Nat) :
    Denotes limit (List.replicate n (.word "#") ++ ss) ts
      ↔ ∃ vs, ts = List.replicate n "#" ++ vs ∧ Denotes limit ss vs := by
  induction n generalizing ts with
  | zero => simp
  -- the first wildcard is a word like any other; the rest are counted by the induction
  | succ n ih =>
    rw [List.replicate_succ, List.cons_append, denotes_word_iff]
    constructor
    · rintro ⟨vs, rfl, hvs⟩
      obtain ⟨us, rfl, hus⟩ := ih.1 hvs
      exact ⟨us, rfl, hus⟩
    · rintro ⟨vs, rfl, hvs⟩
      exact ⟨_, rfl, ih.2 ⟨vs, rfl, hvs⟩⟩

/-- A row of words denotes just these. -/
theorem denotes_map_word_iff {ws : List String} : Denotes limit (ws.map .word) ts ↔ ts = ws := by
  induction ws generalizing ts with
  | nil => exact denotes_nil_iff
  | cons w ws ih =>
    rw [List.map_cons, denotes_word_iff]
    constructor
    · rintro ⟨vs, rfl, hvs⟩
      rw [ih.1 hvs]
    · rintro rfl
      exact ⟨ws, rfl, ih.2 rfl⟩

/-- Both ways to read a group, after signs that come before it. -/
theorem denotes_append_group_iff {ps : List Sign} (hps : Nested ps) (hss : Nested ss) :
    Denotes limit (ps ++ (.opens :: ss ++ .closes :: rs)) ts
      ↔ Denotes limit (ps ++ (ss ++ rs)) ts ∨ Denotes limit (ps ++ rs) ts := by
  rw [denotes_append_iff hps, denotes_append_iff hps, denotes_append_iff hps]
  constructor
  · rintro ⟨us, vs, rfl, hus, hvs⟩
    rcases (denotes_group_iff hss).1 hvs with hpresent | habsent
    · exact .inl ⟨us, vs, rfl, hus, (denotes_append_iff hss).2 hpresent⟩
    · exact .inr ⟨us, vs, rfl, hus, habsent⟩
  · rintro (⟨us, vs, rfl, hus, hvs⟩ | ⟨us, vs, rfl, hus, hvs⟩)
    · exact ⟨us, vs, rfl, hus, (denotes_group_iff hss).2 (.inl ((denotes_append_iff hss).1 hvs))⟩
    · exact ⟨us, vs, rfl, hus, .absent hss hvs⟩

/-- Every way to read a sign for wildcards, after signs that come before it. -/
theorem denotes_append_wild_iff {ps : List Sign} {s : Sign} (hps : Nested ps)
    (hs : s = .maybe ∨ s = .star ∨ s = .plus) :
    Denotes limit (ps ++ s :: ss) ts
      ↔ ∃ n, s.Allows limit n
        ∧ Denotes limit (ps ++ (List.replicate n (.word "#") ++ ss)) ts := by
  simp only [denotes_append_iff hps, denotes_wild_iff hs, denotes_replicate_append_iff]
  constructor
  · rintro ⟨us, _, rfl, hus, n, vs, count, rfl, hvs⟩
    exact ⟨n, count, us, _, rfl, hus, vs, rfl, hvs⟩
  · rintro ⟨n, count, us, _, rfl, hus, vs, rfl, hvs⟩
    exact ⟨us, _, rfl, hus, n, vs, count, rfl, hvs⟩

/-! ## Question marks apart -/

/-- A character that a question mark may stand beside. -/
def isApart (c : Char) : Bool := Text.isBlank c || c == '(' || c == ')' || c == '+' || c == '*'

/-- Whether neither of two characters is a question mark that the other keeps from standing apart. -/
def KeepApart (c d : Char) : Prop := (c = '?' → isApart d = true) ∧ (d = '?' → isApart c = true)

instance : DecidableRel KeepApart := fun c d =>
  inferInstanceAs (Decidable ((c = '?' → isApart d = true) ∧ (d = '?' → isApart c = true)))

/-- A line in which no question mark stands beside another or beside a word. -/
def Apart (line : List Char) : Prop := line.IsChain KeepApart

instance (line : List Char) : Decidable (Apart line) :=
  inferInstanceAs (Decidable (line.IsChain KeepApart))

/-- A blank stands apart from everything. -/
theorem keepApart_of_blank_left {c : Char} (hc : Text.isBlank c = true) (d : Char) :
    KeepApart c d := by
  refine ⟨?_, fun _ => by simp [isApart, hc]⟩
  rintro rfl
  exact absurd hc (by decide)

theorem keepApart_of_blank_right (c : Char) {d : Char} (hd : Text.isBlank d = true) :
    KeepApart c d := (keepApart_of_blank_left hd c).symm

/-- With a blank in between, signs of both sides stand apart. -/
theorem Apart.append_blank {before after : List Char} (h : Apart before) (h' : Apart after) :
    Apart (before ++ ' ' :: after) := by
  refine List.isChain_append.2 ⟨h, List.isChain_cons.2 ⟨?_, h'⟩, ?_⟩
  · exact fun d _ => keepApart_of_blank_left (by decide) d
  · intro c _ d hd
    cases hd
    exact keepApart_of_blank_right c (by decide)

theorem Apart.of_append_cons {before after : List Char} {c : Char} (h : Apart (before ++ c :: after)) :
    Apart before ∧ Apart after :=
  ⟨h.left_of_append, h.right_of_append.tail⟩

/-- The wildcards that a sign is replaced by come with blanks around them. -/
theorem Apart.dictated_append {after : List Char} (h : Apart after) (n : Nat) :
    Apart (dictated n ++ after) := by
  induction n with
  | zero => exact h
  | succ n ih =>
    have hcut : dictated (n + 1) ++ after = ['#'] ++ ' ' :: (dictated n ++ after) := by
      simp [dictated, List.replicate_succ]
    rw [hcut]
    exact Apart.append_blank (.singleton _) ih

/-- Where a question mark is the only sugar left, there are blanks around it. -/
theorem Apart.blank_beside {before after : List Char} (h : Apart (before ++ '?' :: after))
    (hplain : ∀ c ∈ before ++ '?' :: after, isApart c = true → Text.isBlank c = true) :
    (∀ c ∈ before.getLast?, Text.isBlank c = true) ∧ ∀ c ∈ after.head?, Text.isBlank c = true := by
  obtain ⟨_, hafter, hbefore⟩ := List.isChain_append.1 h
  constructor
  · intro c hc
    apply hplain c (List.mem_append_left _ (List.mem_of_getLast? hc))
    exact (hbefore c hc '?' rfl).2 rfl
  · intro c hc
    apply hplain c (List.mem_append_right _ (List.mem_cons_of_mem _ (List.mem_of_head? hc)))
    exact ((List.isChain_cons.1 hafter).1 c hc).1 rfl

/-- A wildcard between blanks is a word, so it stands between the signs of what is before and after
it. -/
theorem signs_append_hash {before after : List Char}
    (hbefore : ∀ c ∈ before.getLast?, Text.isBlank c = true)
    (hafter : ∀ c ∈ after.head?, Text.isBlank c = true) :
    signs (before ++ '#' :: after) = signs before ++ .word "#" :: signs after := by
  have hhash : signs ('#' :: after) = .word "#" :: signs after := by
    cases after with
    | nil => rfl
    | cons c after =>
      have hc := hafter c rfl
      have hcut := signs_append_blank hc ['#'] after
      have hskip := signs_append_blank hc [] after
      rw [List.nil_append] at hskip
      rw [hskip]
      exact hcut
  rcases List.eq_nil_or_concat before with rfl | ⟨before, c, rfl⟩
  · exact hhash
  · have hc := hbefore c (by simp)
    rw [List.concat_eq_append, List.append_assoc, List.singleton_append, signs_append_blank hc, hhash,
      signs_append_blank hc]
    simp [signs, signsFrom, wordSign]

/-- A question mark that stands alone may be replaced by a wildcard. -/
theorem Apart.append_hash {before after : List Char} (h : Apart (before ++ '?' :: after))
    (hbefore : ∀ c ∈ before.getLast?, Text.isBlank c = true)
    (hafter : ∀ c ∈ after.head?, Text.isBlank c = true) : Apart (before ++ '#' :: after) := by
  obtain ⟨hleft, hright⟩ := h.of_append_cons
  refine List.isChain_append.2 ⟨hleft, List.isChain_cons.2 ⟨?_, hright⟩, ?_⟩
  · exact fun d hd => keepApart_of_blank_right _ (hafter d hd)
  · exact fun c hc d _ => keepApart_of_blank_left (hbefore c hc) d

/-! ## Variants -/

variable {line before after : List Char}

/-- A line that can be rewritten: its parentheses nest and its question marks stand apart. -/
structure Ready (line : List Char) : Prop where
  nested : Nested (signs line)
  apart : Apart line

/-- Words are no parentheses, so a row of them nests. -/
theorem nested_replicate_word (n : Nat) (w : String) : Nested (List.replicate n (.word w)) := by
  induction n with
  | zero => exact .nil
  | succ n ih => exact .cons (by simp) (by simp) ih

/-- The wildcards that a sign is replaced by are as many words among the signs. -/
theorem signs_append_dictated (before after : List Char) (n : Nat) :
    signs (before ++ ' ' :: dictated n ++ after)
      = signs before ++ (List.replicate n (.word "#") ++ signs after) := by
  rw [List.append_assoc, List.cons_append, signs_append_blank (by decide), signs_dictated_append]

/-- A group can be left out, or its parentheses can. Either way the line stays ready: its signs nest
and its marks stand apart, so the next sugar can be treated in the same way. -/
theorem Ready.group (h : Ready (before ++ '(' :: after)) (hfirst : '(' ∉ before) :
    ∃ inside rest, closeGroup 0 after = (inside, rest) ∧ after = inside ++ ')' :: rest
      ∧ Nested (signs before) ∧ Nested (signs inside)
      ∧ Ready (before ++ ' ' :: inside ++ ' ' :: rest) ∧ Ready (before ++ ' ' :: rest) := by
  obtain ⟨hclose, hafter, hinside, hrest⟩ := isNested_group hfirst (isNested_of_nested h.nested)
  obtain ⟨hapartBefore, hapartAfter⟩ := h.apart.of_append_cons
  rw [hafter] at hapartAfter
  obtain ⟨hapartInside, hapartRest⟩ := hapartAfter.of_append_cons
  -- the group is the first of the line, so nothing before it is a parenthesis
  have hbefore := nested_of_not_mem hfirst hclose []
  have hinside := nested_of_isNested hinside
  have hrest := nested_of_isNested hrest
  refine ⟨_, _, rfl, hafter, hbefore, hinside, ⟨?_, ?_⟩, ⟨?_, ?_⟩⟩
  · rw [signs_append_blank (by decide), signs_append_blank (by decide)]
    exact (hbefore.append hinside).append hrest
  · exact (hapartBefore.append_blank hapartInside).append_blank hapartRest
  · rw [signs_append_blank (by decide)]
    exact hbefore.append hrest
  · exact hapartBefore.append_blank hapartRest

/-- If there are no groups, wildcards can take the place of a sign. They are written with blanks
around them, which keeps the neighbours of the sign apart. -/
theorem Ready.dictated {c : Char} (h : Ready (before ++ c :: after))
    (hopen : '(' ∉ before ++ c :: after) :
    Nested (signs before) ∧ Nested (signs after)
      ∧ ∀ n, Ready (before ++ ' ' :: Sugar.dictated n ++ after) := by
  have hclose := not_mem_of_isNested hopen (isNested_of_nested h.nested)
  obtain ⟨hapartBefore, hapartAfter⟩ := h.apart.of_append_cons
  simp only [List.mem_append, List.mem_cons, not_or] at hopen hclose
  have hbefore := nested_of_not_mem hopen.1 hclose.1 []
  have hafter := nested_of_not_mem hopen.2.2 hclose.2.2 []
  refine ⟨hbefore, hafter, fun n => ⟨?_, ?_⟩⟩
  · rw [signs_append_dictated]
    exact hbefore.append ((nested_replicate_word n "#").append hafter)
  · rw [List.append_assoc, List.cons_append]
    exact hapartBefore.append_blank (hapartAfter.dictated_append n)

/-- A wildcard can take the place of a question mark if there is no other sugar before it. Then only
blanks or the ends of the line are beside it, so it becomes a word of its own. -/
theorem Ready.maybe (h : Ready (before ++ '?' :: after)) (hopen : '(' ∉ before ++ '?' :: after)
    (hplus : '+' ∉ before ++ '?' :: after) (hstar : '*' ∉ before ++ '?' :: after) :
    Ready (before ++ '#' :: after)
      ∧ signs (before ++ '#' :: after) = signs (before ++ ' ' :: Sugar.dictated 1 ++ after) := by
  have hclose := not_mem_of_isNested hopen (isNested_of_nested h.nested)
  -- what may stand beside a question mark is a blank, since the other characters are gone
  have hplain : ∀ c ∈ before ++ '?' :: after, isApart c = true → Text.isBlank c = true := by
    intro c hc hapart
    simp only [isApart, Bool.or_eq_true, beq_iff_eq] at hapart
    rcases hapart with (((hblank | rfl) | rfl) | rfl) | rfl
    · exact hblank
    · exact absurd hc hopen
    · exact absurd hc hclose
    · exact absurd hc hplus
    · exact absurd hc hstar
  obtain ⟨hblankBefore, hblankAfter⟩ := h.apart.blank_beside hplain
  have hsigns : signs (before ++ '#' :: after)
      = signs (before ++ ' ' :: Sugar.dictated 1 ++ after) := by
    rw [signs_append_hash hblankBefore hblankAfter, signs_append_dictated]
    rfl
  refine ⟨⟨?_, h.apart.append_hash hblankBefore hblankAfter⟩, hsigns⟩
  rw [hsigns]
  exact ((h.dictated hopen).2.2 1).nested

/-! ## Rewriting keeps the denotation -/

/-- A group is replaced by its inside or by nothing, and the two together denote what the group
does. -/
theorem denotes_rewrite_group {inside rest : List Char} (hbefore : Nested (signs before))
    (hinside : Nested (signs inside)) :
    Denotes limit (signs (before ++ '(' :: (inside ++ ')' :: rest))) ts
      ↔ Denotes limit (signs (before ++ ' ' :: inside ++ ' ' :: rest)) ts
        ∨ Denotes limit (signs (before ++ ' ' :: rest)) ts := by
  have hblank : Text.isBlank ' ' = true := by decide
  rw [signs_append_sign rfl, signs_append_sign rfl, signs_append_blank hblank,
    signs_append_blank hblank, signs_append_blank hblank, List.append_assoc]
  exact denotes_append_group_iff hbefore hinside

/-- A wildcard sign is replaced by each number of wildcards that it allows, and these together
denote what the sign does. -/
theorem denotes_rewrite_wild {c : Char} {s : Sign} (hc : sign? c = some s)
    (hs : s = .maybe ∨ s = .star ∨ s = .plus) (hbefore : Nested (signs before)) :
    Denotes limit (signs (before ++ c :: after)) ts
      ↔ ∃ n, s.Allows limit n
        ∧ Denotes limit (signs (before ++ ' ' :: dictated n ++ after)) ts := by
  simp only [signs_append_dictated]
  rw [signs_append_sign hc]
  exact denotes_append_wild_iff hbefore hs

/-- A plus stands for one wildcard at least. -/
theorem denotes_rewrite_plus (hbefore : Nested (signs before)) :
    Denotes limit (signs (before ++ '+' :: after)) ts
      ↔ ∃ n < limit, Denotes limit (signs (before ++ ' ' :: dictated (n + 1) ++ after)) ts := by
  rw [denotes_rewrite_wild rfl (.inr (.inr rfl)) hbefore]
  constructor
  · rintro ⟨n, ⟨hone, hlimit⟩, hdenotes⟩
    -- the variants are numbered from one less than the wildcards they have
    obtain ⟨n, rfl⟩ := Nat.exists_eq_add_of_le' hone
    exact ⟨n, by omega, hdenotes⟩
  · rintro ⟨n, hn, hdenotes⟩
    exact ⟨n + 1, ⟨by omega, by omega⟩, hdenotes⟩

/-- A star stands for no wildcard, which a blank is, or for some. -/
theorem denotes_rewrite_star (hbefore : Nested (signs before)) :
    Denotes limit (signs (before ++ '*' :: after)) ts
      ↔ Denotes limit (signs (before ++ ' ' :: after)) ts
        ∨ ∃ n < limit, Denotes limit (signs (before ++ ' ' :: dictated (n + 1) ++ after)) ts := by
  have hnone : before ++ ' ' :: dictated 0 ++ after = before ++ ' ' :: after := by simp [dictated]
  rw [denotes_rewrite_wild rfl (.inr (.inl rfl)) hbefore, ← hnone]
  constructor
  · rintro ⟨n, hlimit, hdenotes⟩
    -- no wildcard at all is the variant with a blank, which is written first
    cases n with
    | zero => exact .inl hdenotes
    | succ n => exact .inr ⟨n, hlimit, hdenotes⟩
  · rintro (hdenotes | ⟨n, hn, hdenotes⟩)
    · exact ⟨0, Nat.zero_le limit, hdenotes⟩
    · exact ⟨n + 1, hn, hdenotes⟩

/-- A question mark stands for no wildcard or for one. -/
theorem denotes_rewrite_maybe (hbefore : Nested (signs before)) :
    Denotes limit (signs (before ++ '?' :: after)) ts
      ↔ Denotes limit (signs (before ++ ' ' :: after)) ts
        ∨ Denotes limit (signs (before ++ ' ' :: dictated 1 ++ after)) ts := by
  have hnone : before ++ ' ' :: dictated 0 ++ after = before ++ ' ' :: after := by simp [dictated]
  rw [denotes_rewrite_wild rfl (.inl rfl) hbefore, ← hnone]
  constructor
  · rintro ⟨n, hn, hdenotes⟩
    have hle : n ≤ 1 := hn
    have hcases : n = 0 ∨ n = 1 := by omega
    rcases hcases with rfl | rfl
    · exact .inl hdenotes
    · exact .inr hdenotes
  · rintro (hdenotes | hdenotes)
    · exact ⟨0, Nat.zero_le 1, hdenotes⟩
    · exact ⟨1, Nat.le_refl 1, hdenotes⟩

/-- A line of words only denotes these words. -/
theorem denotes_plain_iff (hplain : ∀ c ∈ line, sign? c = none) :
    Denotes limit (signs line) ts ↔ Text.words (String.ofList line) = ts := by
  rw [signs_eq_map hplain, denotes_map_word_iff]
  exact eq_comm

/-- A character that a line cannot be cut at is not in it. -/
theorem not_mem_of_cutAt_none {c : Char} {rest : List Char}
    (h : Text.cutAt c line = (rest, none)) : c ∉ line := by
  have hnot := not_mem_cutAt c line
  rw [h, eq_of_cutAt_none h] at hnot
  exact hnot

/-- A line without sugar is its only variant. -/
theorem variants_eq_singleton (h : line.any isSugar = false) : variants limit line = [line] := by
  -- a line is cut at a sign only if it has one
  have hnot : ∀ {c : Char} {before after : List Char}, isSugar c = true →
      Text.cutAt c line ≠ (before, some after) := by
    intro c before after hc hcut
    have hmem : c ∈ line := by
      rw [eq_of_cutAt hcut]
      exact List.mem_append_right _ (List.mem_cons_self ..)
    rw [List.any_eq_false] at h
    exact h c hmem hc
  fun_cases variants limit line with
  | case1 before after hcut => exact absurd hcut (hnot rfl)
  | case2 _ _ before after hcut => exact absurd hcut (hnot rfl)
  | case3 _ _ _ _ before after hcut => exact absurd hcut (hnot rfl)
  | case4 _ _ _ _ _ _ before after hcut => exact absurd hcut (hnot rfl)
  | case5 => rfl

/-- What is collected for each number below a bound, for rewriting. -/
theorem exists_mem_flatMap_range {f : Nat → List (List Char)} {p : List Char → Prop} {n : Nat} :
    (∃ v ∈ (List.range n).flatMap f, p v) ↔ ∃ i < n, ∃ v ∈ f i, p v := by
  simp only [List.mem_flatMap, List.mem_range]
  constructor
  · rintro ⟨v, ⟨i, hi, hv⟩, hp⟩
    exact ⟨i, hi, v, hv, hp⟩
  · rintro ⟨i, hi, v, hv, hp⟩
    exact ⟨v, ⟨i, hi, hv⟩, hp⟩

/-- The words of the plain variants of a line are what the line denotes.

The induction is that of the function that makes the variants: in each step the first sign of the
line is replaced, and the rewriting lemmas above say that nothing is lost or added by that. -/
theorem exists_variant_iff (h : Ready line) :
    (∃ v ∈ variants limit line, Text.words (String.ofList v) = ts)
      ↔ Denotes limit (signs line) ts := by
  -- each rewriting makes lines with less sugar that together denote the same
  fun_induction variants limit line generalizing ts with
  -- a group, kept or left out
  | case1 line before after hcut group ihPresent =>
    rename_i ihAbsent
    have hfirst := not_mem_cutAt '(' line
    have hline := eq_of_cutAt hcut
    rw [hcut] at hfirst
    subst hline
    obtain ⟨inside, rest, hgroup, rfl, hbefore, hinside, hpresent, habsent⟩ := h.group hfirst
    have hgroup : group = (inside, rest) := hgroup
    clear_value group
    subst hgroup
    simp only [List.mem_append, or_and_right, exists_or]
    rw [ihPresent hpresent, ihAbsent habsent]
    exact (denotes_rewrite_group hbefore hinside).symm
  -- a plus sign
  | case2 line _ hopen before after hcut ih =>
    have hline := eq_of_cutAt hcut
    have hnot := not_mem_of_cutAt_none hopen
    subst hline
    obtain ⟨hbefore, _, hready⟩ := h.dictated hnot
    rw [exists_mem_flatMap_range, denotes_rewrite_plus hbefore]
    simp only [fun n => @ih n ts (hready _)]
  -- a star
  | case3 line _ hopen _ hplus before after hcut ihNone ih =>
    have hline := eq_of_cutAt hcut
    have hnot := not_mem_of_cutAt_none hopen
    subst hline
    obtain ⟨hbefore, _, hready⟩ := h.dictated hnot
    -- a blank is no wildcard at all
    have hblank : Ready (before ++ ' ' :: after) := by simpa [dictated] using hready 0
    simp only [List.mem_append, or_and_right, exists_or]
    rw [exists_mem_flatMap_range, denotes_rewrite_star hbefore, ihNone hblank]
    simp only [fun n => @ih n ts (hready _)]
  -- a question mark
  | case4 line _ hopen _ hplus _ hstar before after hcut ihNone ih =>
    have hline := eq_of_cutAt hcut
    have hnot := not_mem_of_cutAt_none hopen
    have hnotPlus := not_mem_of_cutAt_none hplus
    have hnotStar := not_mem_of_cutAt_none hstar
    subst hline
    obtain ⟨hbefore, _, hready⟩ := h.dictated hnot
    have hblank : Ready (before ++ ' ' :: after) := by simpa [dictated] using hready 0
    -- the wildcard is put in without blanks, which it does not need where nothing touches the mark
    obtain ⟨hhash, hsigns⟩ := h.maybe hnot hnotPlus hnotStar
    simp only [List.mem_append, or_and_right, exists_or]
    rw [ihNone hblank, ih hhash, hsigns, denotes_rewrite_maybe hbefore]
  -- no sign at all
  | case5 line _ hopen _ hplus _ hstar _ hmaybe =>
    rw [denotes_plain_iff (sign?_eq_none_of_not_mem (isNested_of_nested h.nested)
      (not_mem_of_cutAt_none hopen) (not_mem_of_cutAt_none hplus) (not_mem_of_cutAt_none hstar)
      (not_mem_of_cutAt_none hmaybe))]
    simp only [List.mem_singleton, exists_eq_left]

end Utterance.Sugar
