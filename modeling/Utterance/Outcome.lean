import Utterance.Fault
import Utterance.Journal

/-!
# Outcomes

An operation that can fail half way leaves a state behind all the same, and so does one that writes
into the journal. An `Outcome` holds the three together.
-/

namespace Utterance

/-- What an operation leaves behind: the state after it, its result or the fault that stopped it, and
what it wrote into the journal. -/
structure Outcome (σ α : Type) where
  state : σ
  result : Except Fault α
  notes : Journal := []

end Utterance
