import MatchCoverage.Proofs.ProverSpec

/-!
# The prover is a join-semilattice of contributions

A prover over a union is driven by three calls: `apply` contributes a pattern, `applyArm`
contributes an arm (nothing when it is guarded), and `merge` takes in another prover over the same
union, one that has applied arms of its own. A `Step` is one such call, and `Prover.run` performs
steps in order on a fresh prover.

The state never depends on how the contributions arrived. `reflects_run` says what every run
reaches: the prover that reflects everything contributed along it (`Step.contributions`), the
patterns passed to `apply`, those of the unguarded arms passed to `applyArm`, and those of the
unguarded arms of every merged prover. By `Reflects.eq_of_same_members` such a prover is unique,
so the state after a run is the fresh prover that applied the contributed patterns, in ANY order.

**The law** (`prover_join_semilattice`): a run reaches the fresh prover that applied its
contributions in any order; its unresolved variants are the union's that no contribution resolves
and `null` is handled iff some contribution handles it; extending a run never resolves fewer
variants nor unhandles `null`; and on the states runs reach, `merge` is commutative, associative
and idempotent, so it is the join of the contributions whether or not the merged slices of arms
overlap.
-/

namespace MatchCoverage

/-- One call on a prover over a fixed union. -/
inductive Step where
  /-- Contributes a pattern. -/
  | apply (q : Pattern)
  /-- Contributes an arm: its pattern, unless it is guarded. -/
  | applyArm (a : Arm)
  /-- Merges in a fresh prover over the same union that has applied these arms in order. -/
  | merge (arms : List Arm)

namespace Step

/-- Performs one step on a prover over `u`. -/
def perform (u : ClosedUnion) (p : Prover) : Step → Prover
  | .apply q => p.apply q
  | .applyArm a => p.applyArm a
  | .merge arms => p.merge ((Prover.new u).applyArms arms)

/-- The patterns one step contributes. -/
def contribution : Step → List Pattern
  | .apply q => [q]
  | .applyArm a => Arm.contributions [a]
  | .merge arms => Arm.contributions arms

/-- The patterns a sequence of steps contributes, in order. -/
def contributions (steps : List Step) : List Pattern :=
  steps.flatMap contribution

end Step

/-- The prover over `u` after the steps, performed in order on a fresh one. -/
def Prover.run (u : ClosedUnion) (steps : List Step) : Prover :=
  steps.foldl (Step.perform u) (Prover.new u)

namespace Prover

/-- A step adds what it contributes to what the prover reflects. -/
theorem Reflects.perform {p : Prover} {u : ClosedUnion} {cs : List Pattern} (h : p.Reflects u cs) :
    (s : Step) → (s.perform u p).Reflects u (cs ++ s.contribution)
  | .apply q => h.applyAll [q]
  | .applyArm a => by
    rw [Step.perform, applyArm_eq_applyAll]
    exact h.applyAll _
  | .merge arms => h.merge (reflects_applyArms_new u arms)

/-- Steps performed in order add everything they contribute. -/
theorem Reflects.performAll {p : Prover} {u : ClosedUnion} {cs : List Pattern}
    (h : p.Reflects u cs) (steps : List Step) :
    (steps.foldl (Step.perform u) p).Reflects u (cs ++ Step.contributions steps) := by
  induction steps generalizing p cs with
  | nil => simpa [Step.contributions] using h
  | cons s steps ih =>
    have next := ih (h.perform s)
    simpa [Step.contributions, List.append_assoc] using next

/-- A run reaches the prover that reflects everything contributed along it. -/
theorem reflects_run (u : ClosedUnion) (steps : List Step) :
    (run u steps).Reflects u (Step.contributions steps) := by
  have reached := (reflects_new u).performAll steps
  rw [List.nil_append] at reached
  exact reached

/-- The prover after a run reaches the fresh prover that applied the contributions, in any order. -/
theorem run_eq_applyAll_of_perm (u : ClosedUnion) (steps : List Step) (qs : List Pattern)
    (perm : qs.Perm (Step.contributions steps)) : run u steps = (new u).applyAll qs := by
  have applied : ((new u).applyAll qs).Reflects u qs := by
    simpa using (reflects_new u).applyAll qs
  exact (reflects_run u steps).eq_of_same_members applied fun c => perm.mem_iff.symm

/-- Extending a run only filters the unresolved variants further. -/
theorem unresolved_run_append (u : ClosedUnion) (steps more : List Step) :
    (run u (steps ++ more)).unresolved =
      (run u steps).unresolved.filter fun w => !(Step.contributions more).any (·.resolves w.id) := by
  have extended := (reflects_run u steps).performAll more
  have split : run u (steps ++ more) = more.foldl (Step.perform u) (run u steps) := List.foldl_append
  rw [split, extended.unresolved_eq, (reflects_run u steps).unresolved_eq, List.filter_filter]
  congr 1
  funext w
  simp [Bool.and_comm]

/-- Extending a run keeps `null` handled once it is. -/
theorem nullHandled_run_append (u : ClosedUnion) (steps more : List Step) :
    (run u (steps ++ more)).nullHandled =
      ((run u steps).nullHandled || (Step.contributions more).any (·.handlesNull)) := by
  have extended := (reflects_run u steps).performAll more
  have split : run u (steps ++ more) = more.foldl (Step.perform u) (run u steps) := List.foldl_append
  rw [split, extended.nullHandled_eq, (reflects_run u steps).nullHandled_eq, List.any_append]

section Merge

variable (u : ClosedUnion) (steps others others' : List Step)

theorem merge_run_comm : (run u steps).merge (run u others) = (run u others).merge (run u steps) :=
  ((reflects_run u steps).merge (reflects_run u others)).eq_of_same_members
    ((reflects_run u others).merge (reflects_run u steps)) fun c => by
      simp only [List.mem_append]
      exact Or.comm

theorem merge_run_assoc :
    ((run u steps).merge (run u others)).merge (run u others') =
      (run u steps).merge ((run u others).merge (run u others')) := by
  have left := ((reflects_run u steps).merge (reflects_run u others)).merge (reflects_run u others')
  have right :=
    (reflects_run u steps).merge ((reflects_run u others).merge (reflects_run u others'))
  rw [← List.append_assoc] at right
  exact left.unique right

theorem merge_run_self : (run u steps).merge (run u steps) = run u steps :=
  ((reflects_run u steps).merge (reflects_run u steps)).eq_of_same_members (reflects_run u steps)
    fun c => by
      simp only [List.mem_append]
      exact or_self_iff

end Merge

end Prover

/-- **A prover is the join of its contributions.** After any run over `u` (any interleaving of
`apply`, `applyArm`, and `merge` with a fresh prover over `u` that applied arms):

* the prover is the fresh prover that applied every contributed pattern, in any order;
* its unresolved variants are `u`'s variants, in order, that no contributed pattern resolves, and
  it has handled `null` iff some contributed pattern handles it;
* extending the run never raises the number of unresolved variants and never unhandles `null`;
* on the states runs reach, `merge` is commutative, associative and idempotent, whether or not the
  merged slices of arms overlap. -/
theorem prover_join_semilattice (u : ClosedUnion) (steps : List Step) :
    (∀ qs : List Pattern, qs.Perm (Step.contributions steps) →
      Prover.run u steps = (Prover.new u).applyAll qs) ∧
    (Prover.run u steps).unresolved =
      u.variants.filter (fun w => ¬ ∃ q ∈ Step.contributions steps, q.Resolves w.id) ∧
    ((Prover.run u steps).nullHandled = true ↔ ∃ q ∈ Step.contributions steps, q.HandlesNull) ∧
    (∀ more : List Step,
      (Prover.run u (steps ++ more)).remaining ≤ (Prover.run u steps).remaining ∧
      ((Prover.run u steps).nullHandled = true →
        (Prover.run u (steps ++ more)).nullHandled = true)) ∧
    (∀ others others' : List Step,
      (Prover.run u steps).merge (Prover.run u others) =
        (Prover.run u others).merge (Prover.run u steps) ∧
      ((Prover.run u steps).merge (Prover.run u others)).merge (Prover.run u others') =
        (Prover.run u steps).merge ((Prover.run u others).merge (Prover.run u others')) ∧
      (Prover.run u steps).merge (Prover.run u steps) = Prover.run u steps) := by
  have reached := Prover.reflects_run u steps
  refine ⟨Prover.run_eq_applyAll_of_perm u steps, ?_, ?_, ?_, ?_⟩
  · rw [reached.unresolved_eq]
    congr 1
    funext w
    rw [decide_not]
    congr 1
    rw [Bool.eq_iff_iff, Pattern.any_resolves_iff, decide_eq_true_iff]
  · rw [reached.nullHandled_eq, Pattern.any_handlesNull_iff]
  · intro more
    constructor
    · rw [Prover.remaining, Prover.remaining, Prover.unresolved_run_append]
      exact List.filter_sublist.length_le
    · intro handled
      rw [Prover.nullHandled_run_append, handled, Bool.true_or]
  · intro others others'
    exact ⟨Prover.merge_run_comm u steps others, Prover.merge_run_assoc u steps others others',
      Prover.merge_run_self u steps⟩

end MatchCoverage
