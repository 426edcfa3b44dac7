/-!
# Decoding

Text out of bytes, taken as they come. Characters are encoded in UTF-8, and the last one may be cut
off where the bytes stop for the time being. A carriage return, a line feed and both together are one
line end, so a carriage return is held back until it is known what follows it.
-/

namespace Utterance.Text

/-! ## Characters -/

/-- A character of which the first bytes have come. -/
structure CutChar where
  /-- What the bytes so far add up to. -/
  bits : Nat
  /-- Number of bytes so far. -/
  taken : Nat
  /-- Number of bytes to come. -/
  missing : Nat
  /-- The least byte that may come next. -/
  low : Nat := 0x80
  /-- The greatest byte that may come next. -/
  high : Nat := 0xBF
  deriving DecidableEq, Repr

/-- What a byte amounts to: a whole character, or one that is still cut off. -/
abbrev CharBytes := Except CutChar Char

/-- The byte that starts a character. The bounds on the byte after it rule out long spellings and
numbers beyond the last character. -/
def openChar (b : Nat) : Option CharBytes :=
  if b < 0x80 then some (.ok (Char.ofNat b))
  else if b < 0xC2 then none
  else if b < 0xE0 then some (.error { bits := b - 0xC0, taken := 1, missing := 1 })
  else if b < 0xF0 then
    some (.error
      { bits := b - 0xE0, taken := 1, missing := 2, low := if b = 0xE0 then 0xA0 else 0x80 })
  else if b < 0xF5 then
    some (.error
      { bits := b - 0xF0, taken := 1, missing := 3
        low := if b = 0xF0 then 0x90 else 0x80
        high := if b = 0xF4 then 0x8F else 0xBF })
  else none

/-- The byte that continues a character. Halves of surrogate pairs are found out at their last
byte. -/
def CutChar.resume (p : CutChar) (b : Nat) : Option CharBytes :=
  let bits := p.bits * 0x40 + (b - 0x80)
  if b < p.low || p.high < b then none
  else if 1 < p.missing then
    some (.error { bits, taken := p.taken + 1, missing := p.missing - 1 })
  else if bits.isValidChar then some (.ok (Char.ofNat bits))
  else none

/-! ## Texts -/

/-- A decoder between two bytes. -/
structure Decoder where
  cut : Option CutChar := none
  /-- Whether a carriage return is held back. -/
  held : Bool := false
  deriving DecidableEq, Repr

namespace Decoder

/-- The characters that one more character sets free, and whether it is held back itself. -/
def release (held : Bool) (c : Char) : List Char × Bool :=
  if c = '\r' then (if held then ['\n'] else [], true)
  else if held && c != '\n' then (['\n', c], false)
  else ([c], false)

/-- Takes a byte. There is no result if it cannot stand there. -/
def step (d : Decoder) (b : UInt8) : Option (List Char × Decoder) :=
  match d.cut.elim (openChar b.toNat) (·.resume b.toNat) with
  | none => none
  | some (.error cut) => some ([], { d with cut := some cut })
  | some (.ok c) =>
    let (cs, held) := release d.held c
    some (cs, { held })

/-- Takes bytes one after the other. -/
def feed (d : Decoder) : List UInt8 → Option (List Char × Decoder)
  | [] => some ([], d)
  | b :: bs =>
    match d.step b with
    | none => none
    | some (cs, d) =>
      match d.feed bs with
      | none => none
      | some (more, d) => some (cs ++ more, d)

/-- The characters that are set free when no more bytes come. There is no result if a character is
cut off. -/
def finish (d : Decoder) : Option (List Char) :=
  if d.cut.isSome then none else some (if d.held then ['\n'] else [])

/-- The characters of bytes that come in chunks, up to the chunk that cannot be decoded. -/
def chars (d : Decoder) : List (List UInt8) → List Char
  | [] => d.finish.getD []
  | chunk :: rest =>
    match d.feed chunk with
    | none => []
    | some (cs, d) => cs ++ d.chars rest

/-- Bytes that come in two portions give the same as all at once. -/
theorem feed_append (d : Decoder) (xs ys : List UInt8) :
    d.feed (xs ++ ys)
      = (d.feed xs).bind fun (cs, d) => (d.feed ys).map fun (more, d) => (cs ++ more, d) := by
  induction xs generalizing d with
  | nil => simp [feed]
  | cons b xs ih =>
    simp only [List.cons_append, feed]
    cases hstep : d.step b with
    | none => simp
    | some r =>
      obtain ⟨cs, d1⟩ := r
      simp only [ih]
      cases d1.feed xs with
      | none => simp
      | some r =>
        obtain ⟨more, d2⟩ := r
        cases hys : d2.feed ys <;> simp [hys]

end Decoder

end Utterance.Text
