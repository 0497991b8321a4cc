import MatchCoverage.Proofs.ProverSpec

/-!
# Inert patterns are exactly those the prover ignores

`Pattern.isInert` is decided by a recursion of its own: property tests, refinements and unprovable
patterns are inert, a positional pattern is inert when one of its sub-patterns is not total, and
an alternation when every alternative is. The prover never consults it; it folds patterns into its
state by `Prover.apply`, whose connectives differ (every alternative is applied; a positional
pattern resolves its variant when all sub-patterns are total).

The two recursions agree. A pattern is inert exactly when it resolves no variant and does not
handle `null` (`isInert_iff`), so contributing an inert pattern leaves every prover as it was
(`apply_eq_self_of_isInert`). Conversely a pattern that is not inert changes a fresh prover: the
flag of any union when it handles `null`, and otherwise the unresolved variants of the union of a
single variant it resolves (`isInert_of_apply_new_eq_self`).

**The law** (`inert_iff_contributes_nothing`): a pattern is inert iff it neither handles `null`
nor resolves any variant, iff contributing it changes no prover over any union, iff it changes
the fresh prover of no union. So an arm whose pattern is reported inert never changes a proof,
and an unguarded arm whose pattern is not inert changes the fresh proof of some union.
-/

namespace MatchCoverage

namespace Pattern

mutual

/-- A pattern is inert exactly when it handles no `null` and resolves no variant. -/
theorem isInert_iff : (p : Pattern) →
    (p.isInert = true ↔ p.handlesNull = false ∧ ∀ v, p.resolves v = false)
  | .wildcard => by simp [isInert, handlesNull]
  | .nullLiteral => by simp [isInert, handlesNull]
  | .variantTest w => by
    simp only [isInert, Bool.false_eq_true, false_iff, not_and]
    exact fun _ none => by simpa [resolves] using none w
  | .positional w subs => by
    -- a positional pattern can resolve its own variant only, and does so when all its
    -- sub-patterns are total: the negation of what makes it inert
    constructor
    · intro inert
      have partial_ : allTotal subs = false := by simpa [isInert] using inert
      exact ⟨rfl, fun v => by simp [resolves, partial_]⟩
    · rintro ⟨-, none⟩
      simpa [isInert, resolves] using none w
  | .anyOf alts => by
    rw [isInert, handlesNull, allInert_iff alts]
    simp only [resolves]
  | .propertyTest _ _ | .refinement | .unprovable => by simp [isInert, handlesNull, resolves]

/-- Every alternative is inert exactly when none handles `null` and none resolves a variant. -/
theorem allInert_iff : (ps : List Pattern) →
    (allInert ps = true ↔ anyHandlesNull ps = false ∧ ∀ v, anyResolves v ps = false)
  | [] => by simp [allInert, anyHandlesNull, anyResolves]
  | p :: ps => by
    simp only [allInert, anyHandlesNull, anyResolves, Bool.and_eq_true, Bool.or_eq_false_iff,
      forall_and, isInert_iff p, allInert_iff ps]
    exact and_and_and_comm

end

/-- `isInert_iff` read through the propositional meanings of the two deciders. -/
theorem isInert_iff_not_contributes (p : Pattern) :
    p.isInert = true ↔ ¬ p.HandlesNull ∧ ∀ v, ¬ p.Resolves v := by
  simp only [isInert_iff, ← handlesNull_iff, ← resolves_iff, Bool.not_eq_true]

end Pattern

namespace ClosedUnion

/-- The union whose one variant is `v`. -/
def singleton (v : TypeId) : ClosedUnion :=
  ⟨v, "", [⟨v, ""⟩], List.nodup_cons.mpr ⟨List.not_mem_nil, List.nodup_nil⟩⟩

@[simp] theorem variants_singleton (v : TypeId) : (singleton v).variants = [⟨v, ""⟩] := rfl

end ClosedUnion

namespace Prover

/-- Contributing an inert pattern leaves the prover as it was. -/
theorem apply_eq_self_of_isInert {q : Pattern} (inert : q.isInert = true) (p : Prover) :
    p.apply q = p := by
  obtain ⟨no_null, no_variant⟩ := (Pattern.isInert_iff q).mp inert
  apply ext (union_apply p q)
  · rw [unresolved_apply]
    exact List.filter_eq_self.mpr fun w _ => by simp [no_variant]
  · rw [nullHandled_apply, no_null, Bool.or_false]

/-- A pattern that leaves the fresh prover of every union as it was is inert. -/
theorem isInert_of_apply_new_eq_self {q : Pattern}
    (unchanged : ∀ u, (new u).apply q = new u) : q.isInert = true := by
  rw [Pattern.isInert_iff]
  refine ⟨?_, fun v => ?_⟩
  · -- the fresh prover of any union has `null` unhandled
    have flag := congrArg nullHandled (unchanged (ClosedUnion.singleton ⟨0⟩))
    simpa [nullHandled_apply] using flag
  · -- the fresh prover of the union of `v` alone keeps `v` unresolved
    have kept := congrArg unresolved (unchanged (ClosedUnion.singleton v))
    simpa [unresolved_apply, List.filter_cons] using kept

end Prover

/-- **Inert patterns are exactly those that contribute nothing.** A classified pattern is inert
iff it neither handles `null` nor resolves any variant; iff contributing it leaves every prover
over every union as it was; iff it leaves the fresh prover of every union as it was. For arms:
an arm whose pattern is inert leaves every prover as it was, and an unguarded arm whose pattern is
not inert changes the fresh prover of some union. -/
theorem inert_iff_contributes_nothing (q : Pattern) :
    (q.isInert = true ↔ ¬ q.HandlesNull ∧ ∀ v, ¬ q.Resolves v) ∧
    (q.isInert = true ↔ ∀ p : Prover, p.apply q = p) ∧
    (q.isInert = true ↔ ∀ u, (Prover.new u).apply q = Prover.new u) ∧
    (q.isInert = true → ∀ a : Arm, a.pattern = q → ∀ p : Prover, p.applyArm a = p) ∧
    (q.isInert = false → ∀ a : Arm, a.pattern = q → a.guarded = false →
      ∃ u, (Prover.new u).applyArm a ≠ Prover.new u) := by
  have every : q.isInert = true → ∀ p : Prover, p.apply q = p :=
    fun inert => Prover.apply_eq_self_of_isInert inert
  have fresh : (∀ u, (Prover.new u).apply q = Prover.new u) → q.isInert = true :=
    Prover.isInert_of_apply_new_eq_self
  refine ⟨Pattern.isInert_iff_not_contributes q, ⟨every, fun h => fresh fun u => h _⟩,
    ⟨fun inert u => every inert _, fresh⟩, ?_, ?_⟩
  · intro inert a hq p
    cases guard : a.guarded with
    | true => exact Prover.applyArm_of_guarded p a guard
    | false =>
      rw [Prover.applyArm_of_unguarded p a guard, hq]
      exact every inert p
  · intro active a hq unguarded
    have moved : ¬ ∀ u, (Prover.new u).apply q = Prover.new u := fun unchanged => by
      have inert := fresh unchanged
      rw [active] at inert
      cases inert
    obtain ⟨u, changed⟩ := Classical.not_forall.mp moved
    exact ⟨u, by rwa [Prover.applyArm_of_unguarded _ a unguarded, hq]⟩

end MatchCoverage
