import Utterance.Text.Decoder

/-!
# Decoding to the end

What a decoder makes of all the bytes that are still to come. It does not matter in which portions they
are fed to it.
-/

namespace Utterance.Text.Decoder

/-- The characters that bytes give if no more follow. There is no result if they cannot be decoded. -/
def whole (d : Decoder) (bs : List UInt8) : Option (List Char) :=
  (d.feed bs).bind fun (cs, d) => d.finish.map (cs ++ ·)

theorem whole_nil (d : Decoder) : d.whole [] = d.finish := by
  simp [whole, feed]

/-- Bytes in two parts are decoded part by part. The decoder carries what is open between them: the
bytes of an unfinished character, and a carriage return. -/
theorem whole_append (d : Decoder) (xs ys : List UInt8) :
    d.whole (xs ++ ys) = (d.feed xs).bind fun (cs, d) => (d.whole ys).map (cs ++ ·) := by
  unfold whole
  rw [feed_append]
  cases d.feed xs with
  | none => rfl
  | some r =>
    obtain ⟨cs, d1⟩ := r
    cases hys : d1.feed ys with
    | none => simp [hys]
    | some r =>
      obtain ⟨more, d2⟩ := r
      cases hfinish : d2.finish <;> simp [hys, hfinish]

/-- If all bytes can be decoded, so can the first of them, and then the others. -/
theorem exists_feed_of_whole {d : Decoder} {xs ys : List UInt8} {all : List Char}
    (h : d.whole (xs ++ ys) = some all) :
    ∃ cs d' more, d.feed xs = some (cs, d') ∧ d'.whole ys = some more ∧ cs ++ more = all := by
  rw [whole_append] at h
  cases hxs : d.feed xs with
  | none =>
    rw [hxs] at h
    cases h
  | some r =>
    obtain ⟨cs, d'⟩ := r
    rw [hxs] at h
    obtain ⟨more, hmore, hall⟩ := Option.map_eq_some_iff.1 h
    exact ⟨cs, d', more, rfl, hmore, hall⟩

end Utterance.Text.Decoder
