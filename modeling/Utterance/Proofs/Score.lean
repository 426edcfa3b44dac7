import Mathlib.Algebra.Order.Monoid.Defs
import Utterance.Chart.Score

/-!
# Scores as an ordered monoid

Scores are added component by component and compared as triples. The comparison is a linear order,
and adding the same score on both sides does not change it. This is what makes it sound to improve
one part of a derivation at a time: a better part always gives a better whole.
-/

namespace Utterance.Score

attribute [ext] Score

/-! ## Addition -/

instance : Zero Score := ⟨⟨0, 0, 0⟩⟩

@[simp] theorem wild_zero : (0 : Score).wild = 0 := rfl
@[simp] theorem runs_zero : (0 : Score).runs = 0 := rfl
@[simp] theorem nodes_zero : (0 : Score).nodes = 0 := rfl

@[simp] theorem wild_add (a b : Score) : (a + b).wild = a.wild + b.wild := rfl
@[simp] theorem runs_add (a b : Score) : (a + b).runs = a.runs + b.runs := rfl
@[simp] theorem nodes_add (a b : Score) : (a + b).nodes = a.nodes + b.nodes := rfl

instance : AddCommMonoid Score where
  add_assoc a b c := by ext <;> simp [Nat.add_assoc]
  zero_add a := by ext <;> simp
  add_zero a := by ext <;> simp
  add_comm a b := by ext <;> simp [Nat.add_comm]
  nsmul := nsmulRec

/-! ## Order -/

/-- A score is at most another if the other is not better. -/
instance : LE Score := ⟨fun a b => ¬ b < a⟩

theorem le_iff_not_lt {a b : Score} : a ≤ b ↔ ¬ b < a := Iff.rfl

/-- Scores are compared as triples: first by wildcards, then by runs, then by nodes. -/
theorem le_iff (a b : Score) :
    a ≤ b ↔
      a.wild < b.wild ∨ a.wild = b.wild ∧ (a.runs < b.runs ∨ a.runs = b.runs ∧ a.nodes ≤ b.nodes) := by
  rw [le_iff_not_lt, lt_iff]
  omega

instance : LinearOrder Score where
  le_refl a := by rw [le_iff]; omega
  le_trans a b c hab hbc := by
    rw [le_iff] at hab hbc ⊢
    omega
  lt_iff_le_not_ge a b := by
    rw [lt_iff, le_iff, le_iff]
    omega
  le_antisymm a b hab hba := by
    rw [le_iff] at hab hba
    ext <;> omega
  le_total a b := by
    rw [le_iff, le_iff]
    omega
  toDecidableLE a b := inferInstanceAs (Decidable (¬ _))

/-- A part that is not worse makes a whole that is not worse, and conversely. -/
instance : IsOrderedCancelAddMonoid Score where
  add_le_add_left a b h c := by
    rw [le_iff] at h ⊢
    simp only [wild_add, runs_add, nodes_add]
    omega
  le_of_add_le_add_left a b c h := by
    rw [le_iff] at h ⊢
    simp only [wild_add, runs_add, nodes_add] at h
    omega

/-- No score is better than that of nothing. -/
theorem zero_le (a : Score) : 0 ≤ a := by
  rw [le_iff]
  simp only [wild_zero, runs_zero, nodes_zero]
  omega

/-- A whole is never better than one of its parts. -/
theorem le_add_left (a b : Score) : b ≤ a + b := le_add_of_nonneg_left (zero_le a)

end Utterance.Score
