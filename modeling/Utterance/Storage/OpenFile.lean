import Utterance.Storage

/-!
# Open files

What reading needs of an open text file: it gives out its characters one at a time, tells where it
stands, and goes back to such a place. A file may belong to the stored files, and then it reads them as
they are at the time; or its text may lie in memory, and then they are nothing to it.

Two characters may have to be looked at before it is known where a token ends. They are kept in a buffer
in front of the file and are read again from there.
-/

namespace Utterance

/-- A kind of open text files. As long as the stored files stay as they are, all that matters of the
state of such a file is which characters are left of it. -/
class OpenFile (φ : Type) where
  /-- What a place in a file is known by. -/
  Place : Type
  /-- The place at which a file stands. -/
  tell : φ → Place
  /-- Goes to a place. -/
  seek : Files → Place → φ → Except Fault Unit × φ
  /-- Takes the next character; there is none at the end of the file. -/
  read : Files → φ → Except Fault (Option Char) × φ
  /-- The characters that are left, up to the end of the file or to a fault. -/
  left : Files → φ → List Char
  left_of_read : ∀ files f c g, read files f = (.ok (some c), g) → left files f = c :: left files g
  left_of_end : ∀ files f g, read files f = (.ok none, g) → left files f = [] ∧ left files g = []
  left_of_fault : ∀ files f e g, read files f = (.error e, g) → left files f = []

/-! ## Texts in memory -/

/-- A text in memory that is read like a file. It gives out its characters as they are, carriage returns
included. -/
structure MemoryText where
  whole : List Char
  /-- Number of characters that were given out. -/
  position : Nat := 0
  deriving DecidableEq, Repr

namespace MemoryText

/-- The characters that are left. -/
def left (m : MemoryText) : List Char := m.whole.drop m.position

/-- Takes the next character. -/
def read (m : MemoryText) : Option Char × MemoryText :=
  match m.whole[m.position]? with
  | some c => (some c, { m with position := m.position + 1 })
  | none => (none, m)

theorem read_fst (m : MemoryText) : m.read.1 = m.left.head? := by
  rw [left, List.head?_drop, read]
  split <;> rename_i h <;> rw [h]

/-- Reading it leaves the others. -/
theorem left_read (m : MemoryText) : m.read.2.left = m.left.tail := by
  rw [read]
  split
  · rw [left, left, List.tail_drop]
  · rename_i h
    have hnil : m.left = [] := List.drop_eq_nil_of_le (List.getElem?_eq_none_iff.1 h)
    rw [hnil]
    rfl

end MemoryText

/-- Reading a text in memory never fails, and every place in it can be gone back to. -/
instance : OpenFile MemoryText where
  Place := Nat
  tell m := m.position
  seek _ place m := (.ok (), { m with position := place })
  read _ m := (.ok m.read.1, m.read.2)
  left _ m := m.left
  left_of_read _ m c n h := by
    obtain ⟨hread, rfl⟩ := Prod.mk.inj h
    have hhead : m.left.head? = some c := m.read_fst.symm.trans (Except.ok.inj hread)
    obtain ⟨rest, hrest⟩ := List.head?_eq_some_iff.1 hhead
    rw [m.left_read, hrest]
    rfl
  left_of_end _ m n h := by
    obtain ⟨hread, rfl⟩ := Prod.mk.inj h
    have hhead : m.left.head? = none := m.read_fst.symm.trans (Except.ok.inj hread)
    rw [m.left_read, List.head?_eq_none_iff.1 hhead]
    exact ⟨rfl, rfl⟩
  left_of_fault _ _ _ _ h := by
    cases (Prod.mk.inj h).1

/-! ## Looking ahead -/

/-- An open file in one reading, with the characters that were put back in front of it. -/
structure Buffered (φ : Type) where
  /-- The stored files as they are during the reading. -/
  files : Files
  file : φ
  /-- The characters that wait to be read again. -/
  saved : List Char := []
  /-- The fault that the reading came to. Nothing is read after it. -/
  fault : Option Fault := none

namespace Buffered

variable {φ : Type} [OpenFile φ]

/-- The characters that are left. -/
def left (s : Buffered φ) : List Char :=
  s.saved ++ if s.fault.isSome then [] else OpenFile.left s.files s.file

/-- Takes the next character from the file. -/
def fetch (s : Buffered φ) : Option Char × Buffered φ :=
  match OpenFile.read s.files s.file with
  | (.ok c, file) => (c, { s with file })
  | (.error e, file) => (none, { s with file, fault := some e })

/-- Takes the next character. -/
def read (s : Buffered φ) : Option Char × Buffered φ :=
  match s.saved with
  | c :: cs => (some c, { s with saved := cs })
  | [] => if s.fault.isSome then (none, s) else s.fetch

/-- Puts a character back in front. -/
def push (c : Char) (s : Buffered φ) : Buffered φ := { s with saved := c :: s.saved }

/-- Shows the next character without taking it. A character from the file is put back. -/
def peek (s : Buffered φ) : Option Char × Buffered φ :=
  match s.saved with
  | c :: _ => (some c, s)
  | [] =>
    match s.read with
    | (some c, t) => (some c, t.push c)
    | (none, t) => (none, t)

/-! ### What is left -/

variable {s t : Buffered φ} {c : Char}

theorem fetch_saved (s : Buffered φ) : s.fetch.2.saved = s.saved := by
  unfold fetch
  split <;> rfl

/-- Where nothing waits and the file gives nothing, nothing is left. -/
theorem left_of_fetch_eq_none (hsaved : s.saved = []) (hfault : s.fault.isSome = false)
    (h : s.fetch = (none, t)) : s.left = [] ∧ t.left = [] := by
  rw [left, hsaved, hfault, if_neg Bool.false_ne_true, List.nil_append]
  rw [fetch] at h
  split at h
  · rename_i c file hread
    obtain ⟨rfl, rfl⟩ := Prod.mk.inj h
    obtain ⟨hleft, hrest⟩ := OpenFile.left_of_end _ _ _ hread
    refine ⟨hleft, ?_⟩
    rw [left, hsaved, hfault, if_neg Bool.false_ne_true]
    exact hrest
  · rename_i e file hread
    obtain ⟨-, rfl⟩ := Prod.mk.inj h
    -- a file that fails has nothing left, and what follows is not asked for again
    refine ⟨OpenFile.left_of_fault _ _ _ _ hread, ?_⟩
    rw [left, hsaved]
    rfl

/-- Where nothing waits, what the file gives was the first character left. -/
theorem left_of_fetch_eq_some (hsaved : s.saved = []) (hfault : s.fault.isSome = false)
    (h : s.fetch = (some c, t)) : s.left = c :: t.left := by
  rw [left, hsaved, hfault, if_neg Bool.false_ne_true, List.nil_append]
  rw [fetch] at h
  split at h
  · rename_i c file hread
    obtain ⟨rfl, rfl⟩ := Prod.mk.inj h
    rw [left, hsaved, hfault, if_neg Bool.false_ne_true]
    exact OpenFile.left_of_read _ _ _ _ hread
  · cases (Prod.mk.inj h).1

/-- A reading that gives nothing has come to the end. -/
theorem left_of_read_eq_none (s t : Buffered φ) (h : s.read = (none, t)) :
    s.left = [] ∧ t.left = [] := by
  unfold read at h
  split at h
  · cases (Prod.mk.inj h).1
  · rename_i hsaved
    split at h
    -- after a fault nothing is read any more
    · rename_i hfault
      obtain ⟨-, rfl⟩ := Prod.mk.inj h
      rw [left, hsaved, if_pos hfault]
      exact ⟨rfl, rfl⟩
    · rename_i hfault
      exact left_of_fetch_eq_none hsaved (by simpa using hfault) h

/-- A reading takes the first character that is left, be it from those that wait or from the file. -/
theorem left_of_read_eq_some (s : Buffered φ) (c : Char) (t : Buffered φ) (h : s.read = (some c, t)) :
    s.left = c :: t.left := by
  unfold read at h
  split at h
  · rename_i d cs hsaved
    obtain ⟨hc, rfl⟩ := Prod.mk.inj h
    rw [left, left, hsaved, Option.some.inj hc]
    rfl
  · rename_i hsaved
    split at h
    · cases (Prod.mk.inj h).1
    · rename_i hfault
      exact left_of_fetch_eq_some hsaved (by simpa using hfault) h

theorem left_push (c : Char) (s : Buffered φ) : (s.push c).left = c :: s.left := rfl

/-- A look sees the first character that is left. -/
theorem peek_fst (s : Buffered φ) : s.peek.1 = s.left.head? := by
  unfold peek
  split
  · rename_i c cs hsaved
    rw [left, hsaved]
    rfl
  · split
    · rename_i c t h
      rw [left_of_read_eq_some s c t h]
      rfl
    · rename_i t h
      rw [(left_of_read_eq_none s t h).1]
      rfl

/-- A look takes nothing. -/
theorem left_peek (s : Buffered φ) : s.peek.2.left = s.left := by
  unfold peek
  split
  · rfl
  · split
    · rename_i c t h
      rw [left_push, left_of_read_eq_some s c t h]
    · rename_i t h
      rw [(left_of_read_eq_none s t h).1, (left_of_read_eq_none s t h).2]

end Buffered

end Utterance
