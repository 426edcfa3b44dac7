/-!
# Classes of characters as ranges

A class of characters is written as the ascending list of its boundaries: the first number starts a
range, the second is the first number after it, and so on.
-/

namespace Utterance.Text

/-- Whether `n` lies in one of the half-open ranges with the given ascending boundaries. -/
def within : List Nat → Nat → Bool
  | lo :: hi :: rest, n => if n < lo then false else if n < hi then true else within rest n
  | _, _ => false

@[simp] theorem within_nil (n : Nat) : within [] n = false := rfl

end Utterance.Text
