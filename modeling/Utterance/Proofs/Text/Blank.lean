import Utterance.Text.Blank

/-!
# Texts that are cut again

A text that was put together from pieces, lines or words is cut into just these, if the characters that
keep them apart do not occur in them.
-/

namespace Utterance.Text

/-! ## Ends of a text -/

/-- Nothing is dropped from a list whose last character is to stay. -/
theorem dropTailWhile_eq_self {p : Char → Bool} {cs : List Char}
    (h : ∀ c ∈ cs.getLast?, p c = false) : dropTailWhile p cs = cs := by
  rw [dropTailWhile, List.reverse_eq_iff]
  rw [← List.head?_reverse] at h
  cases hcs : cs.reverse with
  | nil => rfl
  | cons c rest =>
    rw [hcs] at h
    exact List.dropWhile_cons_of_neg (by simp [h c rfl])

/-- Nothing is dropped from a list whose first character is to stay. -/
theorem dropWhile_eq_self {p : Char → Bool} {cs : List Char} (h : ∀ c ∈ cs.head?, p c = false) :
    cs.dropWhile p = cs := by
  cases cs with
  | nil => rfl
  | cons c rest => exact List.dropWhile_cons_of_neg (by simp [h c rfl])

/-- A first character that is to stay is never dropped from the tail. -/
theorem dropTailWhile_cons {p : Char → Bool} {c : Char} (h : p c = false) (cs : List Char) :
    dropTailWhile p (c :: cs) = c :: dropTailWhile p cs := by
  rw [dropTailWhile, List.reverse_cons, List.dropWhile_append]
  split
  · rename_i hempty
    rw [List.dropWhile_cons_of_neg (by simp [h]), dropTailWhile, List.isEmpty_iff.1 hempty]
    rfl
  · rw [List.reverse_append]
    rfl

/-- What is left after the tail was dropped begins as before. -/
theorem head?_dropTailWhile {p : Char → Bool} {cs : List Char} {c : Char}
    (h : (dropTailWhile p cs).head? = some c) : cs.head? = some c := by
  obtain ⟨rest, hrest⟩ : ∃ rest, cs = dropTailWhile p cs ++ rest := by
    refine ⟨(cs.reverse.takeWhile p).reverse, ?_⟩
    rw [dropTailWhile, ← List.reverse_append, List.takeWhile_append_dropWhile, List.reverse_reverse]
  rw [hrest, List.head?_append, h]
  rfl

/-- What is left begins with a character that is to stay. -/
theorem head?_dropWhile {p : Char → Bool} {cs : List Char} :
    ∀ c ∈ (cs.dropWhile p).head?, p c = false := by
  intro c hc
  have hfirst := List.head?_dropWhile_not p cs
  rw [hc] at hfirst
  exact hfirst

/-- What is left ends with a character that is to stay. -/
theorem getLast?_dropTailWhile {p : Char → Bool} {cs : List Char} :
    ∀ c ∈ (dropTailWhile p cs).getLast?, p c = false := by
  rw [dropTailWhile, List.getLast?_reverse]
  exact head?_dropWhile

/-- A text is trimmed if it has no blank at either end. -/
theorem trimChars_eq_self_iff {cs : List Char} :
    trimChars cs = cs
      ↔ (∀ c ∈ cs.head?, isBlank c = false) ∧ ∀ c ∈ cs.getLast?, isBlank c = false := by
  constructor
  · intro h
    constructor
    · intro c hc
      rw [← h] at hc
      exact head?_dropWhile c (head?_dropTailWhile hc)
    · rw [← h]
      exact getLast?_dropTailWhile
  · rintro ⟨hhead, hlast⟩
    rw [trimChars, dropWhile_eq_self hhead, dropTailWhile_eq_self hlast]

/-- Blanks around a trimmed text are taken away. -/
theorem trimChars_append {before cs after : List Char} (hbefore : ∀ c ∈ before, isBlank c = true)
    (hafter : ∀ c ∈ after, isBlank c = true) (hne : cs ≠ []) (htrimmed : trimChars cs = cs) :
    trimChars (before ++ cs ++ after) = cs := by
  obtain ⟨hfirst, hlast⟩ := trimChars_eq_self_iff.1 htrimmed
  have hhead : (cs ++ after).dropWhile isBlank = cs ++ after := by
    apply dropWhile_eq_self
    cases cs with
    | nil => exact absurd rfl hne
    | cons c cs => exact hfirst
  -- taking off the blanks at the end also takes off any that the text itself has there
  have htail : dropTailWhile isBlank (cs ++ after) = dropTailWhile isBlank cs := by
    rw [dropTailWhile, List.reverse_append,
      List.dropWhile_append_of_pos fun c hc => hafter c (List.mem_reverse.1 hc)]
    rfl
  rw [trimChars, List.append_assoc, List.dropWhile_append_of_pos hbefore, hhead, htail,
    dropTailWhile_eq_self hlast]

/-! ## Pieces and lines -/

/-- What stands before a character is the start of a text. -/
theorem cutAt_fst_prefix (c : Char) (cs : List Char) : (cutAt c cs).1 <+: cs := by
  induction cs with
  | nil => exact List.nil_prefix
  | cons d ds ih =>
    rw [cutAt]
    split
    · exact List.nil_prefix
    · exact List.cons_prefix_cons.2 ⟨rfl, ih⟩

/-- A list without the character is not cut. -/
theorem cutAt_of_not_mem {c : Char} {cs : List Char} (h : c ∉ cs) : cutAt c cs = (cs, none) := by
  induction cs with
  | nil => rfl
  | cons d ds ih =>
    rw [List.mem_cons, not_or] at h
    rw [cutAt, if_neg (Ne.symm h.1), ih h.2]

/-- A list is cut at the first occurrence of the character. -/
theorem cutAt_append {c : Char} {cs : List Char} (h : c ∉ cs) (rest : List Char) :
    cutAt c (cs ++ c :: rest) = (cs, some rest) := by
  induction cs with
  | nil => simp [cutAt]
  | cons d ds ih =>
    rw [List.mem_cons, not_or] at h
    rw [List.cons_append, cutAt, if_neg (Ne.symm h.1), ih h.2]

/-- Characters without a separator in front belong to the first piece. -/
theorem pieces_append {sep : Char} {cs rest : List Char} {tail : List (List Char)} (hcs : sep ∉ cs)
    (hrest : pieces sep rest = [] :: tail) : pieces sep (cs ++ rest) = cs :: tail := by
  induction cs with
  | nil => exact hrest
  | cons c cs ih =>
    rw [List.mem_cons, not_or] at hcs
    rw [List.cons_append, pieces, if_neg (Ne.symm hcs.1), ih hcs.2]

/-- Pieces each of which is ended by the separator, and nothing after the last one. -/
theorem pieces_terminated {sep : Char} {items : List (List Char)} (h : ∀ cs ∈ items, sep ∉ cs) :
    pieces sep (items.flatMap (· ++ [sep])) = items ++ [[]] := by
  induction items with
  | nil => rfl
  | cons cs items ih =>
    have hrest : pieces sep (sep :: items.flatMap (· ++ [sep])) = [] :: (items ++ [[]]) := by
      rw [pieces, if_pos rfl, ih fun ds hds => h ds (List.mem_cons_of_mem _ hds)]
    rw [List.flatMap_cons, List.append_assoc, List.singleton_append,
      pieces_append (h cs (List.mem_cons_self ..)) hrest, List.cons_append]

/-- Separators in front make as many empty pieces. -/
theorem pieces_replicate_append (sep : Char) (n : Nat) (cs : List Char) :
    pieces sep (List.replicate n sep ++ cs) = List.replicate n [] ++ pieces sep cs := by
  induction n with
  | zero => rfl
  | succ n ih =>
    rw [List.replicate_succ, List.cons_append, pieces, if_pos rfl, ih]
    rfl

/-- Pieces with the separator between any two. -/
theorem pieces_intercalate {sep : Char} {items : List (List Char)} (hne : items ≠ [])
    (h : ∀ cs ∈ items, sep ∉ cs) : pieces sep ([sep].intercalate items) = items := by
  induction items with
  | nil => exact absurd rfl hne
  | cons cs items ih =>
    have hcs := h cs (List.mem_cons_self ..)
    cases items with
    | nil =>
      have hlast : pieces sep (cs ++ []) = [cs] := pieces_append hcs rfl
      simpa using hlast
    | cons ds items =>
      -- the first item has no separator, so it is the first piece, and the rest is cut by the
      -- induction
      have hrest := ih (List.cons_ne_nil _ _) fun es hes => h es (List.mem_cons_of_mem _ hes)
      rw [List.intercalate_cons_cons, List.append_assoc, List.singleton_append]
      apply pieces_append hcs
      rw [pieces, if_pos rfl, hrest]

/-- Without carriage returns line ends are as they should be. -/
theorem unifyLineEnds_eq_self {cs : List Char} (h : '\r' ∉ cs) : unifyLineEnds cs = cs := by
  fun_induction unifyLineEnds cs with
  | case1 => rfl
  | case2 => simp at h
  | case3 => simp at h
  | case4 c cs _ _ ih =>
    rw [List.mem_cons, not_or] at h
    rw [ih h.2]

/-- A text made of lines that are ended by line feeds is cut into them. The last piece is empty and
is dropped. -/
theorem lines_join {ls : List String} (h : ∀ l ∈ ls, '\n' ∉ l.toList ∧ '\r' ∉ l.toList) :
    lines (String.join (ls.map (· ++ "\n"))) = ls := by
  have htext : (String.join (ls.map (· ++ "\n"))).toList
      = (ls.map String.toList).flatMap (· ++ ['\n']) := by
    rw [String.toList_join, List.flatMap_map, List.flatMap_map]
    simp
  -- there are no other line ends that would be unified first
  have hreturn : '\r' ∉ (ls.map String.toList).flatMap (· ++ ['\n']) := by
    simp only [List.mem_flatMap, List.mem_map, not_exists, not_and]
    rintro _ ⟨l, hl, rfl⟩ hmem
    simp [(h l hl).2] at hmem
  have hpieces : pieces '\n' ((ls.map String.toList).flatMap (· ++ ['\n']))
      = ls.map String.toList ++ [[]] := by
    apply pieces_terminated
    intro cs hcs
    obtain ⟨l, hl, rfl⟩ := List.mem_map.1 hcs
    exact (h l hl).1
  rw [lines, htext, unifyLineEnds_eq_self hreturn, hpieces]
  simp [Function.comp_def]

/-- A piece holds characters of the text, but not the separator. The induction is on the text: its
first character is the separator, or goes to the first piece of the rest. -/
theorem of_mem_pieces {sep : Char} {cs piece : List Char} (h : piece ∈ pieces sep cs) :
    ∀ c ∈ piece, c ∈ cs ∧ c ≠ sep := by
  induction cs generalizing piece with
  | nil =>
    rw [List.mem_singleton.1 h]
    exact fun c hc => absurd hc List.not_mem_nil
  | cons d ds ih =>
    have hrest : ∀ piece ∈ pieces sep ds, ∀ c ∈ piece, c ∈ d :: ds ∧ c ≠ sep :=
      fun piece hpiece c hc => (ih hpiece c hc).imp_left (List.mem_cons_of_mem _)
    rw [pieces] at h
    split at h
    · rcases List.mem_cons.1 h with rfl | h
      · exact fun c hc => absurd hc List.not_mem_nil
      · exact hrest piece h
    · rename_i hd
      intro c hc
      split at h
      · rename_i first rest hpieces
        rcases List.mem_cons.1 h with rfl | h
        · rcases List.mem_cons.1 hc with rfl | hc
          · exact ⟨List.mem_cons_self .., hd⟩
          · exact hrest first (by rw [hpieces]; exact List.mem_cons_self ..) c hc
        · exact hrest piece (by rw [hpieces]; exact List.mem_cons_of_mem _ h) c hc
      · rw [List.mem_singleton.1 h] at hc
        rw [List.mem_singleton.1 hc]
        exact ⟨List.mem_cons_self .., hd⟩

/-- No carriage return is left when line ends are unified. -/
theorem carriageReturn_not_mem_unifyLineEnds (cs : List Char) : '\r' ∉ unifyLineEnds cs := by
  fun_induction unifyLineEnds cs with
  | case1 => exact List.not_mem_nil
  | case2 cs ih => simpa using ih
  | case3 cs _ ih => simpa using ih
  | case4 c cs _ hne ih =>
    rw [List.mem_cons, not_or]
    exact ⟨fun heq => hne heq.symm, ih⟩

/-- The lines of a text have no line end in them. -/
theorem unbroken_of_mem_lines {s l : String} (h : l ∈ lines s) :
    '\n' ∉ l.toList ∧ '\r' ∉ l.toList := by
  -- an empty piece behind the last line end is not a line; all the others are
  have hpiece : ∃ piece ∈ pieces '\n' (unifyLineEnds s.toList), String.ofList piece = l := by
    unfold lines at h
    simp only at h
    obtain ⟨piece, hpiece, rfl⟩ := List.mem_map.1 h
    refine ⟨piece, ?_, rfl⟩
    split at hpiece
    · exact List.dropLast_subset _ hpiece
    · exact hpiece
  obtain ⟨piece, hpiece, rfl⟩ := hpiece
  rw [String.toList_ofList]
  constructor
  · exact fun hmem => (of_mem_pieces hpiece _ hmem).2 rfl
  · exact fun hmem => carriageReturn_not_mem_unifyLineEnds _ (of_mem_pieces hpiece _ hmem).1

end Utterance.Text
