import Utterance.Storage.OpenFile

/-!
# Files that yield their characters

What a reader may count on: an open file gives out certain characters one at a time and then comes to its
end, and from wherever the reading went the place where the file stood brings the same characters again.
Nothing is said of what the file is. A text in memory is always such a file, whatever its characters.
-/

namespace Utterance

namespace OpenFile

variable {φ : Type} [OpenFile φ] {files : Files} {f g : φ} {c : List Char}

/-- The states that a file comes to while it is read and a place in it is gone back to. -/
inductive Comes (files : Files) (start : Place φ) (f : φ) : φ → Prop where
  | refl : Comes files start f f
  | read {g : φ} : Comes files start f g → Comes files start f (OpenFile.read files g).2
  | seek {g : φ} : Comes files start f g → Comes files start f (OpenFile.seek files start g).2

/-- A file that yields the characters `c` from where it stands: these are left, no reading comes to a
fault, and going back to where it stood brings them again, whatever was read until then. -/
structure Yields (files : Files) (f : φ) (c : List Char) : Prop where
  left_eq : OpenFile.left files f = c
  sound : ∀ g, Comes files (tell f) f g → ∃ next, (OpenFile.read files g).1 = .ok next
  returns : ∀ g, Comes files (tell f) f g →
    (OpenFile.seek files (tell f) g).1 = .ok ()
      ∧ OpenFile.left files (OpenFile.seek files (tell f) g).2 = c

/-- A file yields its characters if there is an invariant that says so: it tells which characters
are left, a reading takes the first of them and keeps it, and going back restores it. Every kind of
file below is shown to yield what it holds in this way. -/
theorem yields_of_invariant {Holds : φ → List Char → Prop} (hstart : Holds f c)
    (hleft : ∀ {g cs}, Holds g cs → OpenFile.left files g = cs)
    (hread : ∀ {g cs}, Holds g cs →
      (OpenFile.read files g).1 = .ok cs.head? ∧ Holds (OpenFile.read files g).2 cs.tail)
    (hseek : ∀ {g cs}, Holds g cs →
      (OpenFile.seek files (tell f) g).1 = .ok () ∧ Holds (OpenFile.seek files (tell f) g).2 c) :
    Yields files f c := by
  -- whatever is done with the file, the invariant holds of what has come of it
  have hholds : ∀ g, Comes files (tell f) f g → ∃ cs, Holds g cs := by
    intro g hg
    induction hg with
    | refl => exact ⟨c, hstart⟩
    | read _ ih =>
      obtain ⟨cs, hcs⟩ := ih
      exact ⟨cs.tail, (hread hcs).2⟩
    | seek _ ih =>
      obtain ⟨cs, hcs⟩ := ih
      exact ⟨c, (hseek hcs).2⟩
  refine ⟨hleft hstart, fun g hg => ?_, fun g hg => ?_⟩
  · obtain ⟨cs, hcs⟩ := hholds g hg
    exact ⟨_, (hread hcs).1⟩
  · obtain ⟨cs, hcs⟩ := hholds g hg
    exact ⟨(hseek hcs).1, hleft (hseek hcs).2⟩

end OpenFile

/-- A text in memory yields what is left of it, be it at its start or in the middle. No character is
translated, so a carriage return is read as it stands. -/
theorem MemoryText.yields (files : Files) (m : MemoryText) : OpenFile.Yields files m m.left := by
  -- the invariant: it is the same text still
  let Holds (n : MemoryText) (cs : List Char) : Prop := n.whole = m.whole ∧ n.left = cs
  refine @OpenFile.yields_of_invariant _ _ files m m.left Holds ⟨rfl, rfl⟩ (fun h => h.2) ?_ ?_
  · rintro n _ ⟨hwhole, rfl⟩
    refine ⟨congrArg Except.ok n.read_fst, ?_, n.left_read⟩
    -- only the position moves
    show n.read.2.whole = m.whole
    rw [← hwhole, MemoryText.read]
    split <;> rfl
  · rintro n _ ⟨hwhole, rfl⟩
    refine ⟨rfl, hwhole, ?_⟩
    show n.whole.drop m.position = m.whole.drop m.position
    rw [hwhole]

/-! ## Buffers -/

namespace Buffered

variable {φ : Type} [OpenFile φ] {files : Files} {f : φ} {c cs : List Char} {s : Buffered φ}

/-- A reading of a file in which these characters are still to come, those that were put back included,
and which has come to no fault. -/
structure Shows (files : Files) (f : φ) (s : Buffered φ) (cs : List Char) : Prop where
  files_eq : s.files = files
  fault : s.fault = none
  comes : OpenFile.Comes files (OpenFile.tell f) f s.file
  left_eq : s.left = cs

/-- The next character is the first of those that are left, and the others are left then. -/
theorem head_read (s : Buffered φ) : s.read.1 = s.left.head? ∧ s.read.2.left = s.left.tail := by
  rcases hread : s.read with ⟨_ | c, t⟩
  · obtain ⟨hleft, hrest⟩ := left_of_read_eq_none s t hread
    rw [hleft, hrest]
    exact ⟨rfl, rfl⟩
  · rw [left_of_read_eq_some s c t hread]
    exact ⟨rfl, rfl⟩

/-- The file may be read while no character waits: that comes to no fault, and to a state of the
file that it may come to. -/
theorem Shows.fetch (hf : OpenFile.Yields files f c) (h : s.Shows files f cs) :
    s.fetch.2.files = files ∧ s.fetch.2.fault = none
      ∧ OpenFile.Comes files (OpenFile.tell f) f s.fetch.2.file := by
  obtain ⟨next, hnext⟩ := hf.sound _ h.comes
  have hcomes := h.comes.read
  unfold Buffered.fetch
  rw [h.files_eq]
  rcases hread : OpenFile.read files s.file with ⟨e | d, g⟩
  · rw [hread] at hnext
    cases hnext
  · rw [hread] at hcomes
    exact ⟨rfl, h.fault, hcomes⟩

/-- Reading takes the first of the characters that are to come. -/
theorem Shows.read (hf : OpenFile.Yields files f c) (h : s.Shows files f cs) :
    s.read.1 = cs.head? ∧ s.read.2.Shows files f cs.tail := by
  obtain ⟨hhead, hrest⟩ := head_read s
  rw [h.left_eq] at hhead hrest
  have hkept : s.read.2.files = files ∧ s.read.2.fault = none
      ∧ OpenFile.Comes files (OpenFile.tell f) f s.read.2.file := by
    unfold Buffered.read
    split
    -- a character that waits is taken from the buffer, and the file is left alone
    · exact ⟨h.files_eq, h.fault, h.comes⟩
    · rw [h.fault]
      exact h.fetch hf
  exact ⟨hhead, hkept.1, hkept.2.1, hkept.2.2, hrest⟩

theorem Shows.push (h : s.Shows files f cs) (d : Char) : (s.push d).Shows files f (d :: cs) :=
  ⟨h.files_eq, h.fault, h.comes, congrArg (d :: ·) h.left_eq⟩

/-- Looking at the next character takes nothing: what was fetched for it waits in front of the rest. -/
theorem Shows.peek (hf : OpenFile.Yields files f c) (h : s.Shows files f cs) :
    s.peek.2.Shows files f cs := by
  obtain ⟨hhead, hrest⟩ := h.read hf
  unfold Buffered.peek
  split
  · exact h
  · split
    · rename_i d t hread
      rw [hread] at hhead hrest
      obtain ⟨later, rfl⟩ := List.head?_eq_some_iff.1 hhead.symm
      exact hrest.push d
    · rename_i t hread
      rw [hread] at hhead hrest
      rw [List.head?_eq_none_iff.1 hhead.symm] at hrest ⊢
      exact hrest

/-! ### How many wait -/

/-- A reading takes one of the characters that wait, if any wait. -/
theorem length_saved_read (s : Buffered φ) : s.read.2.saved.length = s.saved.length - 1 := by
  unfold Buffered.read
  split
  · rename_i c cs hsaved
    rw [hsaved]
    rfl
  · rename_i hsaved
    split
    · rw [hsaved]
      rfl
    -- nothing waits, so the character comes from the file and does not wait either
    · rw [fetch_saved, hsaved]
      rfl

/-- A look at the next character makes one wait, unless one waits already. So looking never makes
more than one character wait. -/
theorem length_saved_peek_le (s : Buffered φ) : s.peek.2.saved.length ≤ max 1 s.saved.length := by
  unfold Buffered.peek
  split
  · exact Nat.le_max_right _ _
  · rename_i hsaved
    have hread := length_saved_read s
    rw [hsaved] at hread
    split
    · rename_i c t h
      rw [h] at hread
      -- nothing waited, so the character that is put back waits alone
      have hnone : t.saved.length = 0 := hread
      show t.saved.length + 1 ≤ max 1 s.saved.length
      rw [hnone]
      exact Nat.le_max_left 1 _
    · rename_i t h
      rw [h] at hread
      have hnone : t.saved.length = 0 := hread
      show t.saved.length ≤ max 1 s.saved.length
      rw [hnone]
      exact Nat.zero_le _

end Buffered

end Utterance
