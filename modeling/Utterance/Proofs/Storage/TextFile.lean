import Utterance.Proofs.Storage.OpenFile
import Utterance.Proofs.Text.Decoder
import Utterance.Storage.TextFile

/-!
# Reading a file that stays as it is

Bytes are fetched in chunks, some of them out of a block that was read ahead. As long as the file is not
written anew this cannot be seen: from every position on a handle gives out just the characters that the
bytes of the file decode to, and these can be come back to from a mark. So a stored file that can be
decoded yields its characters.
-/

namespace Utterance

/-! ## Blocks -/

namespace Block

variable {b : Block} {bytes : List UInt8} {offset : Nat}

/-- The bytes that a block read ahead are still those of the file. -/
def Of (b : Block) (bytes : List UInt8) : Prop := ∃ more, bytes.drop b.start = b.bytes ++ more

theorem of_empty (bytes : List UInt8) : ({} : Block).Of bytes := ⟨bytes, rfl⟩

/-- What is fetched at once is the first of what the file has there, whether it comes out of the block or
not. -/
theorem chunk_prefix (h : b.Of bytes) (offset : Nat) : b.chunk bytes offset <+: bytes.drop offset := by
  refine (List.take_prefix _ _).trans ?_
  split
  · rename_i hinside
    simp only [Bool.and_eq_true, decide_eq_true_eq] at hinside
    obtain ⟨more, hmore⟩ := h
    obtain ⟨k, rfl⟩ := Nat.exists_eq_add_of_le hinside.1
    rw [rest, Nat.add_sub_cancel_left, ← List.drop_drop, hmore, List.drop_append]
    exact List.prefix_append _ _
  · exact List.prefix_rfl

/-- A chunk and what lies behind it are the file from a place on. -/
theorem chunk_append_drop (h : b.Of bytes) (offset : Nat) :
    b.chunk bytes offset ++ bytes.drop (offset + (b.chunk bytes offset).length)
      = bytes.drop offset := by
  obtain ⟨more, hmore⟩ := chunk_prefix h offset
  rw [← List.drop_drop, ← hmore, List.drop_left]

/-- Where nothing is fetched, the file ends. -/
theorem drop_of_chunk_eq_nil (h : b.chunk bytes offset = []) : bytes.drop offset = [] := by
  unfold chunk at h
  rcases List.take_eq_nil_iff.1 h with hsize | hnil
  · cases hsize
  · split at hnil
    · rename_i hinside
      simp only [Bool.and_eq_true, decide_eq_true_eq] at hinside
      -- the place is inside the block, so the block has a byte there
      have hle : b.bytes.length ≤ offset - b.start := List.drop_eq_nil_iff.1 hnil
      have hlt : offset < b.start + b.bytes.length := hinside.2
      omega
    · exact hnil

/-- All chunks together are the file from a place on. -/
theorem flatten_chunks (h : b.Of bytes) (offset : Nat) :
    (b.chunks bytes offset).flatten = bytes.drop offset := by
  fun_induction chunks b bytes offset with
  | case1 offset hend => exact (drop_of_chunk_eq_nil hend).symm
  | case2 offset hmore ih => rw [List.flatten_cons, ih, chunk_append_drop h]

/-- A block that is moved still agrees with the file, and starts no later than the place it is moved
to. -/
theorem of_moved (h : b.Of bytes) (offset target : Nat) :
    (b.moved offset target).Of bytes ∧ (b.moved offset target).start ≤ target := by
  unfold moved
  split
  · rename_i hreach
    simp only [Bool.and_eq_true, decide_eq_true_eq] at hreach
    exact ⟨h, hreach.1.2⟩
  · exact ⟨of_empty bytes, Nat.zero_le _⟩

/-- What is read ahead after bytes were taken belongs to the file, too. -/
theorem of_take (h : b.Of bytes) (offset n : Nat) : (b.take offset n bytes).2.Of bytes := by
  simp only [take]
  split
  · exact h
  · exact ⟨(bytes.drop (max offset b.stop)).drop size, (List.take_append_drop _ _).symm⟩

end Block

/-! ## What a position shows -/

/-- If all portions can be decoded together, decoding them one by one gives the same characters. A
character whose bytes are cut apart is kept by the decoder until the next portion. -/
theorem Text.Decoder.chars_of_whole {d : Text.Decoder} {ahead : List (List UInt8)} {cs : List Char}
    (h : d.whole ahead.flatten = some cs) : d.chars ahead = cs := by
  induction ahead generalizing d cs with
  | nil =>
    rw [List.flatten_nil, whole_nil] at h
    rw [chars, h]
    rfl
  | cons chunk rest ih =>
    rw [List.flatten_cons] at h
    obtain ⟨first, d', more, hfeed, hmore, rfl⟩ := exists_feed_of_whole h
    rw [chars, hfeed]
    simp only
    rw [ih hmore]

namespace Position

variable {bytes : List UInt8} {ahead : Nat → List (List UInt8)} {p : Position} {cs : List Char}

/-- From a position on, the bytes of a file decode to just these characters. -/
def Before (p : Position) (bytes : List UInt8) (cs : List Char) : Prop :=
  ∃ more, p.decoder.whole (bytes.drop p.offset) = some more ∧ p.ready ++ more = cs

/-- Before certain characters, these are left. -/
theorem Before.left_eq (hahead : ∀ offset, (ahead offset).flatten = bytes.drop offset)
    (h : p.Before bytes cs) : p.left ahead = cs := by
  obtain ⟨more, hmore, rfl⟩ := h
  rw [← hahead] at hmore
  rw [left, Text.Decoder.chars_of_whole hmore]

/-- Of bytes that can be decoded, fetching makes some characters ready, unless none are left. -/
theorem exists_fetch {chunks : List (List UInt8)} {more : List Char}
    (hahead : chunks.flatten = bytes.drop p.offset)
    (hmore : p.decoder.whole (bytes.drop p.offset) = some more) :
    ∃ q, p.fetch chunks = (true, q) ∧ q.Before bytes more ∧ (q.ready = [] → more = []) := by
  induction chunks generalizing p more with
  | nil =>
    have hnone : ({} : Text.Decoder).whole (bytes.drop p.offset) = some [] := by
      rw [← hahead]
      rfl
    rw [← hahead, List.flatten_nil, Text.Decoder.whole_nil] at hmore
    rw [fetch, hmore]
    exact ⟨_, rfl, ⟨[], hnone, List.append_nil more⟩, id⟩
  | cons chunk rest ih =>
    have hrest : rest.flatten = bytes.drop (p.offset + chunk.length) := by
      rw [← List.drop_drop, ← hahead, List.flatten_cons, List.drop_left]
    rw [← hahead, List.flatten_cons, hrest] at hmore
    obtain ⟨first, d, later, hfeed, hlater, rfl⟩ := Text.Decoder.exists_feed_of_whole hmore
    rw [fetch, hfeed]
    cases first with
    -- a chunk may end inside a character and give none
    | nil => exact @ih { p with offset := p.offset + chunk.length, decoder := d } _ hrest hlater
    | cons c first =>
      exact ⟨_, rfl, ⟨later, hlater, rfl⟩, fun hnone => absurd hnone (List.cons_ne_nil _ _)⟩

/-- Taking a character leaves the others. It is a ready one if there is one, and else the first one
of the chunk that is fetched for it. -/
theorem Before.next (hahead : ∀ offset, (ahead offset).flatten = bytes.drop offset)
    (h : p.Before bytes cs) :
    (p.next ahead).1 = .ok cs.head? ∧ (p.next ahead).2.Before bytes cs.tail := by
  obtain ⟨more, hmore, rfl⟩ := h
  unfold Position.next
  split
  · rename_i c ready hready
    rw [hready]
    exact ⟨rfl, more, hmore, rfl⟩
  · rename_i hready
    obtain ⟨q, hfetch, ⟨later, hlater, rfl⟩, hnone⟩ := exists_fetch (hahead _) hmore
    rw [hfetch, hready, List.nil_append]
    -- what is taken and what is left both depend on whether the fetch gave anything
    cases hq : q.ready with
    | nil =>
      have hnil : later = [] := by simpa [hq] using hnone hq
      exact ⟨by simp [hq, hnil], later, hlater, by simp [hq, hnil]⟩
    | cons c ready => exact ⟨by simp [hq], later, hlater, by simp [hq]⟩

end Position

/-! ## Skipping characters -/

/-- What a portion that is fetched leaves of the file. -/
theorem drop_length_take (bytes : List UInt8) (offset size : Nat) :
    (bytes.drop offset).take size
      ++ bytes.drop (offset + ((bytes.drop offset).take size).length) = bytes.drop offset := by
  rw [← List.drop_drop, List.length_take]
  rcases Nat.le_total size (bytes.drop offset).length with h | h
  · rw [Nat.min_eq_left h, List.take_append_drop]
  · rw [Nat.min_eq_right h, List.take_of_length_le h, List.drop_length, List.append_nil]

/-- If what follows a position can be decoded, characters can be skipped, and the others follow
then. The induction is along the portions that are decoded for it; the last of them may give more
characters than are skipped, and these are ready afterwards. -/
theorem Position.Before.skip {bytes : List UInt8} {p : Position} {cs : List Char} {n : Nat} (last : Fetch)
    (h : p.Before bytes cs) (hready : n ≠ 0 → p.ready = []) :
    ∃ p' last', Position.skip bytes p last n = some (p', last') ∧ p'.Before bytes (cs.drop n) := by
  fun_induction Position.skip bytes p last n generalizing cs with
  | case1 p last => exact ⟨p, last, rfl, h⟩
  | case2 p last n hn hend =>
    obtain ⟨more, hmore, rfl⟩ := h
    have hnone : ({} : Text.Decoder).whole (bytes.drop p.offset) = some [] := by
      rw [List.drop_eq_nil_of_le hend]
      rfl
    rw [List.drop_eq_nil_of_le hend, Text.Decoder.whole_nil] at hmore
    rw [hmore, hready hn]
    exact ⟨_, _, rfl, [], hnone, List.append_nil _⟩
  -- a portion that cannot be decoded is not there
  | case3 p last n hn size chunk hend =>
    rename_i hfeed
    obtain ⟨more, hmore, -⟩ := h
    rw [← drop_length_take bytes p.offset size] at hmore
    obtain ⟨cs, d, later, hfeed', -, -⟩ := Text.Decoder.exists_feed_of_whole hmore
    rw [hfeed] at hfeed'
    cases hfeed'
  | case4 p last n hn size chunk hend cs d hfeed start portion =>
    rename_i ih
    obtain ⟨more, hmore, rfl⟩ := h
    rw [← drop_length_take bytes p.offset size] at hmore
    obtain ⟨cs', d', later, hfeed', hlater, rfl⟩ := Text.Decoder.exists_feed_of_whole hmore
    rw [hfeed] at hfeed'
    cases hfeed'
    obtain ⟨p', last', hskip, hbefore⟩ :=
      ih ⟨later, hlater, rfl⟩ fun hmore => List.drop_eq_nil_of_le (by omega)
    refine ⟨p', last', hskip, ?_⟩
    rw [hready hn, List.nil_append, List.drop_append]
    rcases Nat.le_total n cs.length with hle | hle
    · rw [Nat.sub_eq_zero_of_le hle, List.drop_zero] at hbefore ⊢
      exact hbefore
    · rw [List.drop_eq_nil_of_le hle] at hbefore ⊢
      exact hbefore

/-! ## Marks -/

namespace Mark

variable {m : Mark} {block : Block} {bytes : List UInt8}

/-- A mark at which the reading can be taken up again: it can be come back to, whatever is still read
ahead, and just these characters follow. -/
def Returns (m : Mark) (bytes : List UInt8) (cs : List Char) : Prop :=
  ∀ block : Block, block.Of bytes → block.start ≤ m.offset →
    ∃ p block', m.position block bytes = (p, block', none) ∧ p.Before bytes cs

/-- What is read ahead after a mark has been come back to belongs to the file. -/
theorem of_position (h : block.Of bytes) : (m.position block bytes).2.1.Of bytes := by
  have hof := Block.of_take h m.offset m.feed
  unfold position
  simp only
  split
  · exact h
  · split
    · exact hof
    · split <;> exact hof

/-- A mark behind which nothing has to be dropped is the position itself. -/
theorem returns_of_drop_eq_zero {cs : List Char} (hdrop : m.drop = 0)
    (h : ({ held := m.held } : Text.Decoder).whole (bytes.drop m.offset) = some cs) :
    m.Returns bytes cs := by
  intro block _ _
  refine ⟨{ offset := m.offset, decoder := { held := m.held } }, block, ?_, cs, h, rfl⟩
  rw [position, if_pos hdrop]

end Mark

/-! ## Files -/

/-- A handle on a file that stays as it is, of which these characters are still to come. -/
structure Handle.Shows (files : Files) (h : Handle) (cs : List Char) : Prop where
  block : h.block.Of (files.bytesAt h.place)
  before : h.position.Before (files.bytesAt h.place) cs

namespace Handle

variable {files : Files} {place : List String} {h : Handle} {c cs : List Char}

theorem Shows.flatten_ahead (hh : h.Shows files cs) (offset : Nat) :
    (h.ahead files offset).flatten = (files.bytesAt h.place).drop offset :=
  Block.flatten_chunks hh.block offset

theorem Shows.left_eq (hh : h.Shows files cs) : Handle.left files h = cs :=
  hh.before.left_eq hh.flatten_ahead

/-- A reading of a handle takes the first of its characters, and comes to no fault. -/
theorem Shows.read (hh : h.Shows files cs) :
    (Handle.read files h).1 = .ok cs.head? ∧ (Handle.read files h).2.Shows files cs.tail := by
  obtain ⟨hhead, hbefore⟩ := hh.before.next hh.flatten_ahead
  exact ⟨hhead, hh.block, hbefore⟩

/-- Going to a mark brings what follows there, wherever the reading was. -/
theorem Shows.seek {m : Mark} (hh : h.Shows files cs) (hm : m.Returns (files.bytesAt h.place) c) :
    (Handle.seek files m h).1 = .ok () ∧ (Handle.seek files m h).2.Shows files c := by
  obtain ⟨hof, hstart⟩ := Block.of_moved hh.block h.position.offset m.offset
  obtain ⟨p, block, hposition, hbefore⟩ := hm _ hof hstart
  have hof' := @Mark.of_position m _ _ hof
  rw [hposition] at hof'
  unfold Handle.seek
  simp only [hposition]
  exact ⟨rfl, hof', hbefore⟩

/-- A stored file that can be decoded from where it stands, and whose mark can be come back to, yields
its characters. -/
theorem Shows.yields (hh : h.Shows files c) (hreturns : h.mark.Returns (files.bytesAt h.place) c) :
    OpenFile.Yields files h c := by
  -- the invariant: it is the same file still
  let Holds (g : Handle) (cs : List Char) : Prop := g.place = h.place ∧ g.Shows files cs
  refine @OpenFile.yields_of_invariant _ _ files h c Holds ⟨rfl, hh⟩ (fun hg => hg.2.left_eq) ?_ ?_
  · rintro g cs ⟨hplace, hg⟩
    obtain ⟨hhead, hrest⟩ := hg.read
    exact ⟨hhead, hplace, hrest⟩
  · rintro g cs ⟨hplace, hg⟩
    rw [← hplace] at hreturns
    obtain ⟨hback, hrest⟩ := hg.seek hreturns
    exact ⟨hback, hplace, hrest⟩

/-- A stored file that was just opened yields all that it decodes to. -/
theorem yields_opened (h : ({} : Text.Decoder).whole (files.bytesAt place) = some c) :
    OpenFile.Yields files ({ place } : Handle) c :=
  Shows.yields ⟨Block.of_empty _, c, h, rfl⟩ (Mark.returns_of_drop_eq_zero rfl h)

/-- What is left of a text of which so many characters have been read, or all if no number is given or
it is negative. -/
def leftAfter (skip : Option Int) (all : List Char) : List Char :=
  match skip.getD (-1) with
  | .ofNat n => all.drop n
  | .negSucc _ => []

/-- Of a file that can be decoded, a handle shows what was not skipped. Nothing is skipped, some
characters are, or the handle goes to the end of the file. -/
theorem shows_skipping {skip : Option Int} {all : List Char}
    (hall : ({} : Text.Decoder).whole (files.bytesAt place) = some all)
    (hskip : Handle.skipping place (files.bytesAt place) skip = .ok h) :
    h.place = place ∧ h.Shows files (leftAfter skip all) := by
  unfold Handle.skipping at hskip
  unfold leftAfter
  -- a new handle has read nothing ahead
  cases hn : skip.getD (-1) with
  | ofNat n =>
    simp only [hn] at hskip
    have hstart : Position.Before {} (files.bytesAt place) all := ⟨all, hall, rfl⟩
    obtain ⟨p, last, hp, hbefore⟩ := hstart.skip (n := n) {} fun _ => rfl
    rw [hp] at hskip
    split at hskip
    · cases hskip
    · cases hskip
      exact ⟨rfl, Block.of_empty _, hbefore⟩
  | negSucc n =>
    simp only [hn] at hskip
    have hnone : ({} : Text.Decoder).whole ((files.bytesAt place).drop (files.bytesAt place).length)
        = some [] := by
      rw [List.drop_length]
      rfl
    split at hskip
    · cases hskip
    · split at hskip
      · split at hskip
        · cases hskip
          exact ⟨rfl, Block.of_empty _, [], hnone, rfl⟩
        · cases hskip
      · cases hskip

end Handle

end Utterance
