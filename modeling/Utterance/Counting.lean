/-!
# Counting

A list has fewer elements that satisfy a condition if the condition gets narrower and one of its elements
falls out. What looks at no element twice comes to its end by this.
-/

namespace Utterance

/-- A stronger condition holds of fewer members, if there is one that tells the two apart. -/
theorem countP_lt_countP {α : Type} {p q : α → Bool} {xs : List α} {x : α}
    (himp : ∀ y ∈ xs, q y = true → p y = true) (hmem : x ∈ xs) (hp : p x = true) (hq : q x = false) :
    xs.countP q < xs.countP p := by
  obtain ⟨before, after, rfl⟩ := List.append_of_mem hmem
  have hbefore : before.countP q ≤ before.countP p :=
    List.countP_mono_left fun y hy => himp y (List.mem_append_left _ hy)
  have hafter : after.countP q ≤ after.countP p :=
    List.countP_mono_left fun y hy => himp y (List.mem_append_right _ (List.mem_cons_of_mem _ hy))
  rw [List.countP_append, List.countP_append, List.countP_cons_of_pos hp,
    List.countP_cons_of_neg (by simp [hq])]
  omega

end Utterance
