/-!
# Scores

A derivation is ranked by the number of words it matched with wildcards, then by the number of runs
of wildcards, then by its number of nodes; less is better. Scores are compared as triples, and so is
the standing of several derivations at once: improving one of them lowers it, which can be done only
finitely often.
-/

namespace Utterance

/-! ## Single scores -/

/-- Rank of a derivation. -/
structure Score where
  /-- Words matched by wildcards. -/
  wild : Nat
  /-- Runs of wildcards, counted in each production. -/
  runs : Nat
  /-- Nodes of the tree. -/
  nodes : Nat
  deriving DecidableEq, Repr

namespace Score

/-- Score of a production of which nothing is matched yet. -/
def start : Score := ⟨0, 0, 1⟩

/-- Score of two parts of a derivation together. -/
def add (a b : Score) : Score := ⟨a.wild + b.wild, a.runs + b.runs, a.nodes + b.nodes⟩

instance : Add Score := ⟨add⟩

/-- Whether a score is better. -/
def Better (a b : Score) : Prop :=
  a.wild < b.wild ∨ a.wild = b.wild ∧ (a.runs < b.runs ∨ a.runs = b.runs ∧ a.nodes < b.nodes)

instance : LT Score := ⟨Better⟩

instance (a b : Score) : Decidable (a < b) := inferInstanceAs (Decidable (_ ∨ _))

/-- What better means, for rewriting. -/
theorem lt_iff (a b : Score) :
    a < b ↔
      a.wild < b.wild ∨ a.wild = b.wild ∧ (a.runs < b.runs ∨ a.runs = b.runs ∧ a.nodes < b.nodes) :=
  Iff.rfl

/-- A score as a nested pair. -/
def triple (s : Score) : Nat × Nat × Nat := (s.wild, s.runs, s.nodes)

/-- The order is the lexicographic one of the three numbers, which is well-founded. So a state
cannot be improved for ever. -/
theorem lex_of_lt {a b : Score} (h : a < b) :
    Prod.Lex (· < ·) (Prod.Lex (· < ·) (· < ·)) a.triple b.triple := by
  obtain ⟨aw, ar, an⟩ := a
  obtain ⟨bw, br, bn⟩ := b
  rcases h with h | ⟨h, h' | ⟨h', h''⟩⟩
  · exact .left _ _ h
  · simp only at h
    subst h
    exact .right _ (.left _ _ h')
  · simp only at h h'
    subst h h'
    exact .right _ (.right _ h'')

/-- A score can be improved only finitely often. -/
theorem lt_wellFounded : WellFounded (fun a b : Score => a < b) :=
  Subrelation.wf lex_of_lt (InvImage.wf triple
    (Prod.lex ⟨_, Nat.lt_wfRel.wf⟩ (Prod.lex ⟨_, Nat.lt_wfRel.wf⟩ ⟨_, Nat.lt_wfRel.wf⟩)).wf)

end Score

/-! ## Several scores at once -/

/-- The scores of a fixed number of derivations. -/
structure Standing where
  scores : List Score

namespace Standing

/-- Whether the first score that differs is better. -/
inductive Below : List Score → List Score → Prop where
  | head {a b : Score} {as bs : List Score} (better : a < b) (same : as.length = bs.length) :
      Below (a :: as) (b :: bs)
  | tail {a : Score} {as bs : List Score} (below : Below as bs) : Below (a :: as) (a :: bs)

/-- Only standings of the same derivations are compared, and a derivation keeps its place. -/
theorem Below.length_eq {as bs : List Score} (h : Below as bs) : as.length = bs.length := by
  induction h with
  | head _ same => simp [same]
  | tail _ ih => simp [ih]

/-- If standings of length `n` cannot be improved for ever, nor can those with one score more in
front: by induction on that score, and for a fixed one along the standings behind it. -/
theorem acc_cons (n : Nat) (ih : ∀ bs : List Score, bs.length = n → Acc Below bs) (b : Score) :
    ∀ bs : List Score, bs.length = n → Acc Below (b :: bs) := by
  induction b using Score.lt_wellFounded.induction with
  | _ b ihb =>
    intro bs hbs
    induction ih bs hbs with
    | intro bs _ ihbs =>
      refine .intro _ fun y hy => ?_
      cases hy with
      -- a better first score leaves the rest free, up to its length
      | head better same => exact ihb _ better _ (same.trans hbs)
      | tail below => exact ihbs _ below (below.length_eq.trans hbs)

/-- Standings of a given length cannot be improved for ever. -/
theorem acc_of_length (n : Nat) : ∀ bs : List Score, bs.length = n → Acc Below bs := by
  induction n with
  | zero =>
    intro bs hbs
    rw [List.length_eq_zero_iff.1 hbs]
    exact .intro _ fun y hy => nomatch hy
  | succ n ih =>
    intro bs hbs
    match bs, hbs with
    | b :: bs, hbs => exact acc_cons n ih b bs (by simpa using hbs)

instance : WellFoundedRelation Standing where
  rel a b := Below a.scores b.scores
  wf := InvImage.wf scores ⟨fun bs => acc_of_length bs.length bs rfl⟩

/-- A standing is not below itself. -/
theorem not_below_self (l : List Score) : ¬ Below l l := by
  intro h
  induction l with
  | nil => cases h
  | cons a as ih =>
    cases h with
    | head better _ =>
      rw [Score.lt_iff] at better
      omega
    | tail below => exact ih below

/-- Replacing a score by a better one lowers the standing. -/
theorem below_set {a b : Score} (h : a < b) :
    ∀ {bs : List Score} {i : Nat}, bs[i]? = some b → Below (bs.set i a) bs
  | [], _, hi => by simp at hi
  | c :: cs, 0, hi => by
    simp only [List.getElem?_cons_zero, Option.some.injEq] at hi
    subst hi
    exact .head h rfl
  | c :: cs, i + 1, hi => .tail (below_set h (by simpa using hi))

end Standing

end Utterance
