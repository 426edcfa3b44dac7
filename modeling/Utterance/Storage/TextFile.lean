import Utterance.Binary64
import Utterance.Storage.OpenFile
import Utterance.Text.Decoder

/-!
# Open text files

Reading a text file a character at a time. Bytes are fetched in chunks, each decoded as a whole when
its first character is asked for. A file may be written anew while it is open: what was decoded before
stays, and what is fetched later comes from the file as it is then.

A chunk that cannot be decoded spoils the reading: nothing of it is given out, though it counts as
fetched. A character that is cut off by the end of the file spoils every reading that comes to it.

Coming back to a marked place may take a few bytes before it. These are read with a block of what
follows them, and the block is used up before the file is looked at again.
-/

namespace Utterance

/-! ## Positions -/

/-- Where the reading of a text file stands. -/
structure Position where
  /-- Number of bytes that were fetched. -/
  offset : Nat := 0
  decoder : Text.Decoder := {}
  /-- The characters that are decoded and not given out. -/
  ready : List Char := []
  deriving DecidableEq, Repr

/-- Number of bytes that are fetched at a time. -/
def chunkSize : Nat := 8192

/-! ## Blocks -/

/-- Bytes of a file as they were when they were read ahead. -/
structure Block where
  /-- Where in the file the block starts. -/
  start : Nat := 0
  bytes : List UInt8 := []
  deriving DecidableEq, Repr

namespace Block

/-- Greatest number of bytes in a block. -/
def size : Nat := 4096

/-- Where in the file the block stops. -/
def stop (b : Block) : Nat := b.start + b.bytes.length

/-- The bytes of a block from a place in it on. -/
def rest (b : Block) (offset : Nat) : List UInt8 := b.bytes.drop (offset - b.start)

/-- The bytes that are fetched next from a place in a file: out of the block if the place lies in it. -/
def chunk (b : Block) (bytes : List UInt8) (offset : Nat) : List UInt8 :=
  (if b.start ≤ offset && offset < b.stop then b.rest offset else bytes.drop offset).take chunkSize

/-- Something is fetched only from before the end of the block or of the file. Offsets therefore
stop growing, and a file is read to its end in finitely many steps. -/
theorem lt_of_chunk_ne_nil {b : Block} {bytes : List UInt8} {offset : Nat}
    (h : b.chunk bytes offset ≠ []) : offset < max b.stop bytes.length := by
  have hpos := List.length_pos_iff.2 h
  unfold chunk at hpos
  split at hpos
  · rename_i hinside
    simp only [Bool.and_eq_true, decide_eq_true_eq] at hinside
    omega
  · simp only [List.length_take, List.length_drop] at hpos
    omega

/-- All that is fetched from a place in a file on, one chunk after the other. -/
def chunks (b : Block) (bytes : List UInt8) (offset : Nat) : List (List UInt8) :=
  if _hend : b.chunk bytes offset = [] then []
  else b.chunk bytes offset :: b.chunks bytes (offset + (b.chunk bytes offset).length)
termination_by max b.stop bytes.length - offset
decreasing_by
  have hlt := lt_of_chunk_ne_nil _hend
  have hpos := List.length_pos_iff.2 _hend
  omega

/-- The block that is still good when the reading goes from one place to another: one that is used up
is given up, and so is one that does not reach to the other place. -/
def moved (b : Block) (offset target : Nat) : Block :=
  if offset < b.stop && b.start ≤ target && target < b.stop then b else {}

/-- Takes `n` bytes of a file from a place on, out of the block as far as it goes. If it does not go
far enough, the next block is read. -/
def take (b : Block) (offset n : Nat) (bytes : List UInt8) : List UInt8 × Block :=
  let kept := b.rest offset
  if n ≤ kept.length then (kept.take n, b)
  else
    let start := max offset b.stop
    let next : Block := ⟨start, (bytes.drop start).take size⟩
    (kept ++ next.bytes.take (n - kept.length), next)

/-- What is fetched after a chunk is what is fetched from its end on. -/
theorem chunks_of_cons {b : Block} {bytes : List UInt8} {offset : Nat} {chunk : List UInt8}
    {rest : List (List UInt8)} (h : b.chunks bytes offset = chunk :: rest) :
    b.chunks bytes (offset + chunk.length) = rest := by
  rw [chunks] at h
  split at h
  · cases h
  · obtain ⟨rfl, rfl⟩ := List.cons.inj h
    rfl

end Block

/-! ## Fetching -/

namespace Position

/-- Decodes chunks until there are characters or the file ends. The result tells whether they can be
decoded; a chunk that cannot counts as fetched all the same. -/
def fetch (p : Position) : List (List UInt8) → Bool × Position
  | [] =>
    match p.decoder.finish with
    | none => (false, p)
    | some cs => (true, { p with decoder := {}, ready := cs })
  | chunk :: rest =>
    let offset := p.offset + chunk.length
    match p.decoder.feed chunk with
    | none => (false, { p with offset })
    | some ([], decoder) => fetch { p with offset, decoder } rest
    | some (c :: cs, decoder) => (true, { offset, decoder, ready := c :: cs })

/-- Takes the next character of a file of which `ahead` gives the chunks from any place on. -/
def next (ahead : Nat → List (List UInt8)) (p : Position) : Except Fault (Option Char) × Position :=
  match p.ready with
  | c :: cs => (.ok (some c), { p with ready := cs })
  | [] =>
    match p.fetch (ahead p.offset) with
    | (false, q) => (.error .undecodable, q)
    | (true, q) => (.ok q.ready.head?, { q with ready := q.ready.tail })

/-- The characters that are left. -/
def left (ahead : Nat → List (List UInt8)) (p : Position) : List Char :=
  p.ready ++ p.decoder.chars (ahead p.offset)

/-- What is ahead of a place is one chunk after the other. -/
def Chunked (ahead : Nat → List (List UInt8)) : Prop :=
  ∀ offset chunk rest, ahead offset = chunk :: rest → ahead (offset + chunk.length) = rest

variable {ahead : Nat → List (List UInt8)} {p q : Position}

/-- Fetching loses and adds nothing, and brings a character unless none is left. -/
theorem left_of_fetch_eq_true {chunks : List (List UInt8)} (hahead : Chunked ahead)
    (hchunks : ahead p.offset = chunks) (h : p.fetch chunks = (true, q)) :
    q.left ahead = p.decoder.chars chunks ∧ (q.ready = [] → p.decoder.chars chunks = []) := by
  induction chunks generalizing p with
  | nil =>
    rw [fetch] at h
    split at h
    · cases h
    · rename_i cs hfinish
      cases h
      have hchars : p.decoder.chars [] = cs := by rw [Text.Decoder.chars, hfinish]; rfl
      rw [hchars, left, hchunks]
      exact ⟨List.append_nil cs, id⟩
  | cons chunk rest ih =>
    have hrest := hahead _ _ _ hchunks
    rw [fetch] at h
    rw [Text.Decoder.chars]
    split at h
    · cases h
    -- a chunk may end inside a character and give none
    · rename_i decoder hfeed
      rw [hfeed]
      exact ih hrest h
    · rename_i c cs decoder hfeed
      cases h
      rw [hfeed, left, hrest]
      exact ⟨rfl, nofun⟩

/-- Nothing is left before a chunk that cannot be decoded. -/
theorem chars_of_fetch_eq_false {chunks : List (List UInt8)} (h : p.fetch chunks = (false, q)) :
    p.decoder.chars chunks = [] := by
  induction chunks generalizing p with
  | nil =>
    rw [fetch] at h
    split at h
    · rename_i hfinish
      rw [Text.Decoder.chars, hfinish]
      rfl
    · cases h
  | cons chunk rest ih =>
    rw [fetch] at h
    rw [Text.Decoder.chars]
    split at h
    · rename_i hfeed
      rw [hfeed]
    · rename_i decoder hfeed
      rw [hfeed]
      exact ih h
    · cases h

/-- The next character is the first of those that are left. -/
theorem left_of_next_eq_some {c : Char} (hahead : Chunked ahead)
    (h : p.next ahead = (.ok (some c), q)) : p.left ahead = c :: q.left ahead := by
  unfold next at h
  split at h
  · rename_i d cs hready
    cases h
    rw [left, hready]
    rfl
  · rename_i hready
    split at h
    · cases h
    -- nothing was ready, so chunks were fetched until a character was
    · rename_i r hfetch
      obtain ⟨hhead, rfl⟩ := Prod.mk.inj h
      obtain ⟨cs, hcs⟩ := List.head?_eq_some_iff.1 (Except.ok.inj hhead)
      rw [left, hready, List.nil_append, ← (left_of_fetch_eq_true hahead rfl hfetch).1, left, hcs]
      rfl

/-- At the end nothing is left. -/
theorem left_of_next_eq_none (hahead : Chunked ahead) (h : p.next ahead = (.ok none, q)) :
    p.left ahead = [] ∧ q.left ahead = [] := by
  unfold next at h
  split at h
  · cases h
  · rename_i hready
    split at h
    · cases h
    · rename_i r hfetch
      obtain ⟨hhead, rfl⟩ := Prod.mk.inj h
      obtain ⟨hleft, hnone⟩ := left_of_fetch_eq_true hahead rfl hfetch
      -- nothing was ready to be given out, so what is left now is what was left then
      have hnil : r.ready = [] := List.head?_eq_none_iff.1 (Except.ok.inj hhead)
      rw [left, hnil, List.nil_append, hnone hnil] at hleft
      rw [left, hready, List.nil_append, left, hnil]
      exact ⟨hnone hnil, hleft⟩

/-- Nothing is left of a file that cannot be decoded any further. -/
theorem left_of_next_eq_error {e : Fault} (h : p.next ahead = (.error e, q)) :
    p.left ahead = [] := by
  unfold next at h
  split at h
  · cases h
  · rename_i hready
    split at h
    · rename_i r hfetch
      rw [left, hready, List.nil_append, chars_of_fetch_eq_false hfetch]
    · cases h

end Position

/-! ## Skipping characters -/

/-- The last portion of bytes that was decoded, and how much of it was used. -/
structure Fetch where
  /-- Where the portion starts; a character that was cut off before it belongs to it. -/
  start : Nat := 0
  /-- Whether a carriage return was held back before it. -/
  held : Bool := false
  bytes : List UInt8 := []
  /-- Number of bytes that were fetched for it. -/
  fresh : Nat := 0
  /-- Number of characters that it gave. -/
  count : Nat := 0
  /-- Number of these that were given out. -/
  used : Nat := 0

/-- Number of bytes that `n` characters take if they are like those of the last portion, as computed
with floating-point numbers. -/
def Fetch.estimate (f : Fetch) (n : Nat) : Nat :=
  if f.count = 0 then 0
  else
    let product := do
      let ratio ← Binary64.ofRatio? f.fresh f.count
      ratio.mul? (← Binary64.ofNat? n)
    product.elim 0 (·.truncate)

/-- Number of bytes that are fetched for `n` characters. -/
def Fetch.next (f : Fetch) (n : Nat) : Nat := max chunkSize (max n (f.estimate n))

/-- Number of bytes of the character that is cut off. -/
def Position.cutBytes (p : Position) : Nat := p.decoder.cut.elim 0 (·.taken)

/-- Gives out `n` characters of a file, or all if there are fewer, from a position at which none is
ready. There is no result if they cannot be decoded. -/
def Position.skip (bytes : List UInt8) (p : Position) (last : Fetch) (n : Nat) :
    Option (Position × Fetch) :=
  if n = 0 then some (p, last)
  else
    let size := last.next n
    let chunk := (bytes.drop p.offset).take size
    if _hend : bytes.length ≤ p.offset then
      p.decoder.finish.map fun cs =>
        ({ p with decoder := {}, ready := cs.drop n },
          if n ≤ cs.length then
            { start := p.offset, held := p.decoder.held, count := cs.length, used := n }
          else { start := p.offset })
    else
      match p.decoder.feed chunk with
      | none => none
      | some (cs, decoder) =>
        let start := p.offset - p.cutBytes
        let portion : Fetch :=
          { start
            held := p.decoder.held
            bytes := (bytes.drop start).take (p.cutBytes + chunk.length)
            fresh := chunk.length
            count := cs.length
            used := min n cs.length }
        Position.skip bytes { offset := p.offset + chunk.length, decoder, ready := cs.drop n } portion
          (n - cs.length)
termination_by bytes.length - p.offset
decreasing_by
  have hsize : 0 < last.next n := Nat.lt_of_lt_of_le (by decide : 0 < chunkSize) (Nat.le_max_left _ _)
  simp only [List.length_take, List.length_drop]
  omega

/-! ## Marks -/

/-- A place in a file to come back to: the last place before it at which no character is cut off, and
what has to be decoded and dropped from there. -/
structure Mark where
  offset : Nat := 0
  held : Bool := false
  /-- Number of bytes to decode at once. -/
  feed : Nat := 0
  /-- Whether the file ends after them. -/
  final : Bool := false
  /-- Number of characters to drop. -/
  drop : Nat := 0
  deriving DecidableEq, Repr

/-- Moves a mark on byte by byte until it is close to its place. `got` characters have been decoded
since the mark. -/
def Mark.approach (m : Mark) (d : Text.Decoder) (got : Nat) : List UInt8 → Mark
  | [] => { m with final := true }
  | b :: bs =>
    match d.step b with
    | none => m
    | some (cs, d) =>
      let got := got + cs.length
      let feed := m.feed + 1
      if d.cut.isNone && got ≤ m.drop then
        let m : Mark := { offset := m.offset + feed, held := d.held, drop := m.drop - got }
        if m.drop = 0 then m else m.approach d 0 bs
      else if m.drop ≤ got then { m with feed }
      else Mark.approach { m with feed } d got bs

/-- Looks for a mark near the byte `skip` of a portion, and further back by `back` bytes at a time if
that is too far. -/
def Fetch.markNear (f : Fetch) (skip back : Nat) : Mark :=
  let start : Text.Decoder := { held := f.held }
  let first : Mark := { offset := f.start, held := f.held, drop := f.used }
  if _hskip : skip = 0 then first.approach start 0 f.bytes
  else
    match start.feed (f.bytes.take skip) with
    | none => first
    | some (cs, d) =>
      if f.used < cs.length then f.markNear (skip - max 1 back) (2 * back)
      else
        match d.cut with
        | some cut => f.markNear (skip - max 1 cut.taken) 1
        | none =>
          let m : Mark := { offset := f.start + skip, held := d.held, drop := f.used - cs.length }
          if m.drop = 0 then m else m.approach d 0 (f.bytes.drop skip)
termination_by skip

/-- The mark of the place behind the characters of a portion that were given out. -/
def Fetch.mark (f : Fetch) : Mark :=
  if f.used = 0 then { offset := f.start, held := f.held } else f.markNear (f.estimate f.used) 1

/-- The position at a mark, and the block that is read ahead after the bytes before it. `block` is what
is read ahead now. The text there may have changed so that the place cannot be found again. -/
def Mark.position (m : Mark) (block : Block) (bytes : List UInt8) :
    Position × Block × Option Fault :=
  let p : Position := { offset := m.offset, decoder := { held := m.held } }
  if m.drop = 0 then (p, block, none)
  else
    let (input, block) := block.take m.offset m.feed bytes
    let offset := m.offset + input.length
    let decoded : Option (List Char × Text.Decoder) := do
      let (cs, d) ← p.decoder.feed input
      if m.final then return (cs ++ (← d.finish), {}) else return (cs, d)
    match decoded with
    | none => ({ p with offset }, block, some .undecodable)
    | some (cs, decoder) =>
      if cs.length < m.drop then
        ({ offset, decoder, ready := cs }, block, some (.file .lostPlace))
      else ({ offset, decoder, ready := cs.drop m.drop }, block, none)

/-! ## Files -/

/-- A stored file that is open. It does not know what stands in it: that is looked up among the files when
bytes are fetched. -/
structure Handle where
  place : List String
  /-- The mark of the place where it stood when it was handed over to be read. -/
  mark : Mark := {}
  position : Position := {}
  /-- What was read ahead when a mark was come back to. -/
  block : Block := {}

namespace Handle

/-- What is fetched from any place in the file on. -/
def ahead (h : Handle) (files : Files) (offset : Nat) : List (List UInt8) :=
  h.block.chunks (files.bytesAt h.place) offset

/-- Takes the next character. -/
def read (files : Files) (h : Handle) : Except Fault (Option Char) × Handle :=
  let (c, position) := h.position.next (h.ahead files)
  (c, { h with position })

/-- Goes to a mark. If the text there has changed, its place may be lost. -/
def seek (files : Files) (m : Mark) (h : Handle) : Except Fault Unit × Handle :=
  let block := h.block.moved h.position.offset m.offset
  let (position, block, fault) := m.position block (files.bytesAt h.place)
  (fault.elim (.ok ()) .error, { h with position, block })

/-- The characters that are left. -/
def left (files : Files) (h : Handle) : List Char := h.position.left (h.ahead files)

/-- What a handle fetches from an offset on comes in portions of which the later ones start later. -/
theorem chunked_ahead (files : Files) (h : Handle) : Position.Chunked (h.ahead files) :=
  fun _ _ _ hcons => Block.chunks_of_cons hcons

end Handle

@[default_instance]
instance : OpenFile Handle where
  Place := Mark
  tell := Handle.mark
  seek := Handle.seek
  read := Handle.read
  left := Handle.left
  left_of_read files h c g hread := by
    obtain ⟨hnext, rfl⟩ := Prod.mk.inj hread
    exact Position.left_of_next_eq_some (h.chunked_ahead files) (Prod.ext hnext rfl)
  left_of_end files h g hread := by
    obtain ⟨hnext, rfl⟩ := Prod.mk.inj hread
    exact Position.left_of_next_eq_none (h.chunked_ahead files) (Prod.ext hnext rfl)
  left_of_fault files h e g hread := by
    obtain ⟨hnext, rfl⟩ := Prod.mk.inj hread
    exact Position.left_of_next_eq_error (Prod.ext hnext rfl)

/-! ## Opening -/

/-- Counts of characters are signed machine words, and so below this number. -/
def Handle.countLimit : Nat := 1 <<< 63

/-- A handle on a file of which `skip` characters have been read, or all if no number is given or it
is negative. -/
def Handle.skipping (place : List String) (bytes : List UInt8) (skip : Option Int) :
    Except Fault Handle :=
  match skip.getD (-1) with
  | .ofNat n =>
    if countLimit ≤ n then .error .countTooLarge
    else
      match Position.skip bytes {} {} n with
      | some (position, last) => .ok { place, mark := last.mark, position }
      | none => .error .undecodable
  | .negSucc n =>
    if countLimit ≤ n then .error .countTooLarge
    else
      let offset := bytes.length
      match ({} : Text.Decoder).feed bytes with
      | some (_, d) =>
        if d.finish.isSome then .ok { place, mark := { offset }, position := { offset } }
        else .error .undecodable
      | none => .error .undecodable

end Utterance
