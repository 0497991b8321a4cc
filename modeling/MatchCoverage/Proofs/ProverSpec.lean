import MatchCoverage.Pattern.Contribution
import MatchCoverage.Prover

/-!
# The prover computes the declarative coverage

`Pattern.Resolves` and `Pattern.HandlesNull` say what one pattern establishes, without reference to
any state; the prover folds patterns into a state. This module ties the two together.

Each relation gets a Boolean decision, `Pattern.resolves` and `Pattern.handlesNull`, so that the
declarative coverage can be computed and filtered by. Every operation of the prover then gets ONE
equation through the two views of its state: contributing a pattern drops exactly the variants it
resolves and raises the `null` flag exactly when it handles `null` (`unresolved_apply`,
`nullHandled_apply`). Later proofs cite these and never unfold `apply`.

The invariant is `Prover.Reflects p u cs`: `p` is a prover over `u` whose unresolved variants are
the variants of `u` that no pattern of `cs` resolves, in `u`'s order, and whose `null` flag is set
exactly when some pattern of `cs` handles `null`. The fresh prover reflects no contribution, and
every operation extends what is reflected by what it contributes (`Reflects.applyAll`,
`Reflects.applyArms`, `Reflects.merge`). Only membership in `cs` matters to the two views, so two
provers over one union that reflect lists with the same members are EQUAL
(`Reflects.eq_of_same_members`): order and repetition of contributions never show.

**The law** (`prove_eq_declarative`): `prove` reports exactly the declarative coverage of the
unguarded arms of a match. `null` is handled iff some unguarded arm handles it; the unresolved ids
are the union's ids that no unguarded arm resolves, in declaration order; and the verdict is
exhaustive iff `null` is not missing and nothing is unresolved. So the report depends on nothing
but what the unguarded arms resolve and whether one handles `null`.
-/

namespace MatchCoverage

namespace Pattern

mutual

/-- Decides `Resolves v`. -/
def resolves (v : TypeId) : Pattern → Bool
  | .wildcard => true
  | .variantTest w => v == w
  | .positional w subs => v == w && allTotal subs
  | .anyOf alts => anyResolves v alts
  | .nullLiteral | .propertyTest _ _ | .refinement | .unprovable => false

/-- Some pattern of the list resolves `v`. -/
def anyResolves (v : TypeId) : List Pattern → Bool
  | [] => false
  | p :: ps => p.resolves v || anyResolves v ps

end

mutual

/-- Decides `HandlesNull`. -/
def handlesNull : Pattern → Bool
  | .wildcard | .nullLiteral => true
  | .anyOf alts => anyHandlesNull alts
  | .variantTest _ | .positional _ _ | .propertyTest _ _ | .refinement | .unprovable => false

/-- Some pattern of the list handles `null`. -/
def anyHandlesNull : List Pattern → Bool
  | [] => false
  | p :: ps => p.handlesNull || anyHandlesNull ps

end

theorem anyResolves_eq_any (v : TypeId) (ps : List Pattern) :
    anyResolves v ps = ps.any (·.resolves v) := by
  induction ps with
  | nil => rfl
  | cons p ps ih => simp [anyResolves, ih]

theorem anyHandlesNull_eq_any (ps : List Pattern) :
    anyHandlesNull ps = ps.any (·.handlesNull) := by
  induction ps with
  | nil => rfl
  | cons p ps ih => simp [anyHandlesNull, ih]

theorem allTotal_eq_true_iff (ps : List Pattern) :
    allTotal ps = true ↔ ∀ s ∈ ps, s.isTotal = true := by
  simp [allTotal]

theorem resolves_anyOf_iff {v : TypeId} {alts : List Pattern} :
    Resolves v (.anyOf alts) ↔ ∃ a ∈ alts, a.Resolves v := by
  constructor
  · intro h
    cases h with
    | anyOf mem h => exact ⟨_, mem, h⟩
  · rintro ⟨a, mem, h⟩
    exact .anyOf mem h

theorem handlesNull_anyOf_iff {alts : List Pattern} :
    HandlesNull (.anyOf alts) ↔ ∃ a ∈ alts, a.HandlesNull := by
  constructor
  · intro h
    cases h with
    | anyOf mem h => exact ⟨_, mem, h⟩
  · rintro ⟨a, mem, h⟩
    exact .anyOf mem h

mutual

/-- `resolves` decides `Resolves`. -/
theorem resolves_iff (v : TypeId) : (p : Pattern) → (p.resolves v = true ↔ p.Resolves v)
  | .wildcard => by simpa [resolves] using Resolves.wildcard
  | .variantTest w => by
    constructor
    · intro h
      rw [show v = w by simpa [resolves] using h]
      exact .variantTest
    · rintro ⟨⟩
      simp [resolves]
  | .positional w subs => by
    constructor
    · intro h
      simp only [resolves, Bool.and_eq_true, beq_iff_eq, allTotal_eq_true_iff] at h
      obtain ⟨rfl, total⟩ := h
      exact .positional total
    · intro h
      cases h with
      | positional total => simpa [resolves, allTotal_eq_true_iff] using total
  | .anyOf alts => by
    rw [resolves_anyOf_iff, resolves]
    exact anyResolves_iff v alts
  | .nullLiteral | .propertyTest _ _ | .refinement | .unprovable => by
    simp only [resolves, Bool.false_eq_true, false_iff]
    rintro ⟨⟩

theorem anyResolves_iff (v : TypeId) :
    (ps : List Pattern) → (anyResolves v ps = true ↔ ∃ p ∈ ps, p.Resolves v)
  | [] => by simp [anyResolves]
  | p :: ps => by
    simp only [anyResolves, Bool.or_eq_true, resolves_iff v p, anyResolves_iff v ps,
      List.mem_cons, exists_eq_or_imp]

end

mutual

/-- `handlesNull` decides `HandlesNull`. -/
theorem handlesNull_iff : (p : Pattern) → (p.handlesNull = true ↔ p.HandlesNull)
  | .wildcard => by simpa [handlesNull] using HandlesNull.wildcard
  | .nullLiteral => by simpa [handlesNull] using HandlesNull.nullLiteral
  | .anyOf alts => by
    rw [handlesNull_anyOf_iff, handlesNull]
    exact anyHandlesNull_iff alts
  | .variantTest _ | .positional _ _ | .propertyTest _ _ | .refinement | .unprovable => by
    simp only [handlesNull, Bool.false_eq_true, false_iff]
    rintro ⟨⟩

theorem anyHandlesNull_iff : (ps : List Pattern) → (anyHandlesNull ps = true ↔ ∃ p ∈ ps, p.HandlesNull)
  | [] => by simp [anyHandlesNull]
  | p :: ps => by
    simp only [anyHandlesNull, Bool.or_eq_true, handlesNull_iff p, anyHandlesNull_iff ps,
      List.mem_cons, exists_eq_or_imp]

end

instance (v : TypeId) (p : Pattern) : Decidable (p.Resolves v) :=
  decidable_of_iff _ (resolves_iff v p)

instance (p : Pattern) : Decidable p.HandlesNull :=
  decidable_of_iff _ (handlesNull_iff p)

theorem any_resolves_iff (v : TypeId) (ps : List Pattern) :
    ps.any (·.resolves v) = true ↔ ∃ p ∈ ps, p.Resolves v := by
  simp [resolves_iff]

theorem any_handlesNull_iff (ps : List Pattern) :
    ps.any (·.handlesNull) = true ↔ ∃ p ∈ ps, p.HandlesNull := by
  simp [handlesNull_iff]

end Pattern

namespace Arm

/-- The patterns a list of arms contributes to a proof: those of its unguarded arms, in order. -/
def contributions (arms : List Arm) : List Pattern :=
  (arms.filter (!·.guarded)).map (·.pattern)

@[simp] theorem contributions_nil : contributions [] = [] := rfl

theorem mem_contributions {arms : List Arm} {q : Pattern} :
    q ∈ contributions arms ↔ ∃ a ∈ arms, a.guarded = false ∧ a.pattern = q := by
  simp [contributions, and_assoc]

/-- Some contributed pattern has a property exactly when the pattern of some unguarded arm has
it; the declarative coverage of a match is read through this. -/
theorem exists_mem_contributions {arms : List Arm} {P : Pattern → Prop} :
    (∃ q ∈ contributions arms, P q) ↔ ∃ a ∈ arms, a.guarded = false ∧ P a.pattern := by
  simp only [mem_contributions]
  constructor
  · rintro ⟨_, ⟨a, mem, unguarded, rfl⟩, h⟩
    exact ⟨a, mem, unguarded, h⟩
  · rintro ⟨a, mem, unguarded, h⟩
    exact ⟨a.pattern, ⟨a, mem, unguarded, rfl⟩, h⟩

theorem contributions_cons (a : Arm) (arms : List Arm) :
    contributions (a :: arms) = (if a.guarded then [] else [a.pattern]) ++ contributions arms := by
  cases h : a.guarded <;> simp [contributions, h]

end Arm

namespace MatchConstruct

theorem resolves_iff_contributions (m : MatchConstruct) (v : TypeId) :
    m.Resolves v ↔ ∃ q ∈ Arm.contributions m.arms, q.Resolves v :=
  Arm.exists_mem_contributions.symm

theorem handlesNull_iff_contributions (m : MatchConstruct) :
    m.HandlesNull ↔ ∃ q ∈ Arm.contributions m.arms, q.HandlesNull :=
  Arm.exists_mem_contributions.symm

instance (m : MatchConstruct) (v : TypeId) : Decidable (m.Resolves v) :=
  decidable_of_iff _ (resolves_iff_contributions m v).symm

instance (m : MatchConstruct) : Decidable m.HandlesNull :=
  decidable_of_iff _ (handlesNull_iff_contributions m).symm

end MatchConstruct

namespace Prover

theorem ext {p q : Prover} (hu : p.union = q.union) (hr : p.unresolved = q.unresolved)
    (hn : p.nullHandled = q.nullHandled) : p = q := by
  obtain ⟨u, r, n, _⟩ := p
  obtain ⟨u', r', n', _⟩ := q
  simp only at hu hr hn
  subst hu hr hn
  rfl

mutual

/-- Contributing a pattern drops exactly the variants it resolves. -/
theorem unresolved_apply (p : Prover) : (q : Pattern) →
    (p.apply q).unresolved = p.unresolved.filter fun w => !q.resolves w.id
  | .wildcard => by simp [apply, resolveAll, Pattern.resolves]
  | .nullLiteral => (List.filter_eq_self.mpr (by simp [Pattern.resolves])).symm
  | .variantTest v => by
    simp only [apply, unresolved_resolve, Pattern.resolves]
    rfl
  | .positional v subs => by
    simp only [apply, Pattern.resolves]
    split
    · next total =>
      simp only [unresolved_resolve, total, Bool.and_true]
      rfl
    · next hpartial => exact (List.filter_eq_self.mpr (by simp [hpartial])).symm
  | .anyOf alts => by
    simp only [apply, unresolved_applyAll, Pattern.resolves, Pattern.anyResolves_eq_any]
  | .propertyTest _ _ | .refinement | .unprovable =>
    (List.filter_eq_self.mpr (by simp [Pattern.resolves])).symm

theorem unresolved_applyAll (p : Prover) : (qs : List Pattern) →
    (p.applyAll qs).unresolved = p.unresolved.filter fun w => !qs.any (·.resolves w.id)
  | [] => (List.filter_eq_self.mpr (by simp)).symm
  | q :: qs => by
    rw [applyAll, unresolved_applyAll (p.apply q) qs, unresolved_apply p q, List.filter_filter]
    congr 1
    funext w
    simp [Bool.and_comm]

end

mutual

/-- Contributing a pattern sets the `null` flag exactly when the pattern handles `null`. -/
theorem nullHandled_apply (p : Prover) : (q : Pattern) →
    (p.apply q).nullHandled = (p.nullHandled || q.handlesNull)
  | .wildcard => by simp [apply, resolveAll, Pattern.handlesNull]
  | .nullLiteral => by simp [apply, handleNull, Pattern.handlesNull]
  | .variantTest v => by simp [apply, Pattern.handlesNull]
  | .positional v subs => by
    simp only [apply, Pattern.handlesNull, Bool.or_false]
    split <;> rfl
  | .anyOf alts => by
    simp only [apply, nullHandled_applyAll, Pattern.handlesNull, Pattern.anyHandlesNull_eq_any]
  | .propertyTest _ _ | .refinement | .unprovable => by simp [apply, Pattern.handlesNull]

theorem nullHandled_applyAll (p : Prover) : (qs : List Pattern) →
    (p.applyAll qs).nullHandled = (p.nullHandled || qs.any (·.handlesNull))
  | [] => by simp [applyAll]
  | q :: qs => by
    rw [applyAll, nullHandled_applyAll (p.apply q) qs, nullHandled_apply p q]
    simp [Bool.or_assoc]

end

theorem applyAll_append (p : Prover) (qs rs : List Pattern) :
    p.applyAll (qs ++ rs) = (p.applyAll qs).applyAll rs := by
  induction qs generalizing p with
  | nil => rfl
  | cons q qs ih => exact ih (p.apply q)

/-- An arm contributes its pattern when unguarded and nothing when guarded. -/
theorem applyArm_eq_applyAll (p : Prover) (a : Arm) :
    p.applyArm a = p.applyAll (Arm.contributions [a]) := by
  cases h : a.guarded <;> simp [applyArm, Arm.contributions, h, applyAll]

/-- Contributing arms in order is contributing their unguarded patterns in order. -/
theorem applyArms_eq_applyAll (p : Prover) (arms : List Arm) :
    p.applyArms arms = p.applyAll (Arm.contributions arms) := by
  induction arms generalizing p with
  | nil => rfl
  | cons a arms ih =>
    have split : Arm.contributions (a :: arms) = Arm.contributions [a] ++ Arm.contributions arms := by
      simp [Arm.contributions_cons]
    rw [split, applyAll_append, ← applyArm_eq_applyAll]
    exact ih (p.applyArm a)

/-- `p` is the prover over `u` that the contributed patterns `cs` produce: a variant is unresolved
exactly when no pattern of `cs` resolves it, in `u`'s order, and `null` is handled exactly when
some pattern of `cs` handles it. -/
structure Reflects (p : Prover) (u : ClosedUnion) (cs : List Pattern) : Prop where
  union_eq : p.union = u
  unresolved_eq : p.unresolved = u.variants.filter fun w => !cs.any (·.resolves w.id)
  nullHandled_eq : p.nullHandled = cs.any (·.handlesNull)

theorem reflects_new (u : ClosedUnion) : (new u).Reflects u [] :=
  ⟨rfl, (List.filter_eq_self.mpr (by simp)).symm, rfl⟩

/-- Contributing patterns adds them to what the prover reflects. -/
theorem Reflects.applyAll {p : Prover} {u : ClosedUnion} {cs : List Pattern}
    (h : p.Reflects u cs) (qs : List Pattern) : (p.applyAll qs).Reflects u (cs ++ qs) where
  union_eq := (union_applyAll p qs).trans h.union_eq
  unresolved_eq := by
    rw [unresolved_applyAll, h.unresolved_eq, List.filter_filter]
    congr 1
    funext w
    simp [Bool.and_comm]
  nullHandled_eq := by rw [nullHandled_applyAll, h.nullHandled_eq, List.any_append]

theorem Reflects.applyArms {p : Prover} {u : ClosedUnion} {cs : List Pattern}
    (h : p.Reflects u cs) (arms : List Arm) :
    (p.applyArms arms).Reflects u (cs ++ Arm.contributions arms) := by
  rw [applyArms_eq_applyAll]
  exact h.applyAll _

/-- A variant of a union is among those a filter by identity keeps exactly when the filter keeps
its own identity. -/
theorem any_id_filter_variants {w : Variant} {vs : List Variant} (hw : w ∈ vs)
    (ds : List Pattern) :
    (vs.filter fun x => !ds.any (·.resolves x.id)).any (·.id == w.id) =
      !ds.any (·.resolves w.id) := by
  cases hkeep : !ds.any (·.resolves w.id) with
  | true =>
    rw [List.any_eq_true]
    exact ⟨w, List.mem_filter.mpr ⟨hw, hkeep⟩, beq_self_eq_true _⟩
  | false =>
    rw [List.any_eq_false]
    intro x hx same
    rw [beq_iff_eq] at same
    have kept := (List.mem_filter.mp hx).2
    rw [same, hkeep] at kept
    exact Bool.false_ne_true kept

/-- Merging two provers over one union reflects both contributions: a variant stays unresolved
when neither side resolves it, and `null` is handled when either side handles it. -/
theorem Reflects.merge {p q : Prover} {u : ClosedUnion} {cs ds : List Pattern}
    (hp : p.Reflects u cs) (hq : q.Reflects u ds) : (p.merge q).Reflects u (cs ++ ds) where
  union_eq := hp.union_eq
  unresolved_eq := by
    rw [unresolved_merge, hp.unresolved_eq, hq.unresolved_eq, List.filter_filter]
    apply List.filter_congr
    intro w hw
    rw [any_id_filter_variants hw ds]
    simp [Bool.and_comm]
  nullHandled_eq := by simp [hp.nullHandled_eq, hq.nullHandled_eq]

/-- What a prover reflects is determined by the coverage of its contributions: another list that
resolves the same variants and handles `null` alike is reflected too. -/
theorem Reflects.congr {p : Prover} {u : ClosedUnion} {cs ds : List Pattern}
    (h : p.Reflects u cs) (hr : ∀ v, cs.any (·.resolves v) = ds.any (·.resolves v))
    (hn : cs.any (·.handlesNull) = ds.any (·.handlesNull)) : p.Reflects u ds where
  union_eq := h.union_eq
  unresolved_eq := by
    rw [h.unresolved_eq]
    congr 1
    funext w
    rw [hr]
  nullHandled_eq := h.nullHandled_eq.trans hn

theorem Reflects.unique {p q : Prover} {u : ClosedUnion} {cs : List Pattern}
    (hp : p.Reflects u cs) (hq : q.Reflects u cs) : p = q :=
  ext (hp.union_eq.trans hq.union_eq.symm) (hp.unresolved_eq.trans hq.unresolved_eq.symm)
    (hp.nullHandled_eq.trans hq.nullHandled_eq.symm)

/-- Two provers over one union that reflect lists with the same members are the same prover:
neither the order nor the repetition of contributions shows. -/
theorem Reflects.eq_of_same_members {p q : Prover} {u : ClosedUnion} {cs ds : List Pattern}
    (hp : p.Reflects u cs) (hq : q.Reflects u ds) (same : ∀ c, c ∈ cs ↔ c ∈ ds) : p = q := by
  have any_eq : ∀ f : Pattern → Bool, cs.any f = ds.any f := by
    intro f
    rw [Bool.eq_iff_iff, List.any_eq_true, List.any_eq_true]
    exact exists_congr fun c => and_congr_left fun _ => same c
  exact (hp.congr (fun v => any_eq _) (any_eq _)).unique hq

theorem reflects_applyArms_new (u : ClosedUnion) (arms : List Arm) :
    ((new u).applyArms arms).Reflects u (Arm.contributions arms) := by
  simpa using (reflects_new u).applyArms arms

end Prover

namespace Coverage

/-- The verdict is exhaustive exactly when the subject cannot be `null` or `null` is handled, and
no variant is unresolved. -/
theorem verdict_eq_exhaustive_iff (c : Coverage) :
    c.verdict = .exhaustive ↔ (c.nullable = false ∨ c.nullHandled = true) ∧ c.unresolved = [] := by
  unfold verdict missingNull
  cases c.nullable <;> cases c.nullHandled <;> cases h : c.unresolved <;> simp

end Coverage

section Declarative

variable (u : ClosedUnion) (m : MatchConstruct)

theorem any_contributions_resolves :
    (v : TypeId) → (Arm.contributions m.arms).any (·.resolves v) = decide (m.Resolves v) := by
  intro v
  rw [Bool.eq_iff_iff, Pattern.any_resolves_iff, decide_eq_true_iff,
    MatchConstruct.resolves_iff_contributions]

/-- `prove` handles `null` exactly when an unguarded arm handles it. -/
theorem nullHandled_prove : (prove u m).nullHandled = true ↔ m.HandlesNull := by
  rw [prove, Prover.nullHandled_finish, (Prover.reflects_applyArms_new u m.arms).nullHandled_eq,
    Pattern.any_handlesNull_iff, MatchConstruct.handlesNull_iff_contributions]

/-- `prove` leaves unresolved exactly the variants no unguarded arm resolves, in declaration
order. -/
theorem unresolved_prove :
    (prove u m).unresolved = u.variants.filter fun w => ¬ m.Resolves w.id := by
  rw [prove, Prover.unresolved_finish, (Prover.reflects_applyArms_new u m.arms).unresolved_eq]
  congr 1
  funext w
  rw [any_contributions_resolves, decide_not]

/-- Two matches over one subject whose unguarded arms resolve the same variants and handle `null`
alike get the same report. -/
theorem prove_eq_of_coverage {m' : MatchConstruct} (hn : m'.nullable = m.nullable)
    (hr : ∀ v, m'.Resolves v ↔ m.Resolves v) (hnull : m'.HandlesNull ↔ m.HandlesNull) :
    prove u m' = prove u m := by
  have same : (Prover.new u).applyArms m'.arms = (Prover.new u).applyArms m.arms := by
    apply Prover.Reflects.unique (Prover.reflects_applyArms_new u m'.arms)
    apply (Prover.reflects_applyArms_new u m.arms).congr
    · intro v
      rw [any_contributions_resolves, any_contributions_resolves, decide_eq_decide.mpr (hr v)]
    · rw [Bool.eq_iff_iff, Pattern.any_handlesNull_iff, Pattern.any_handlesNull_iff,
        ← MatchConstruct.handlesNull_iff_contributions,
        ← MatchConstruct.handlesNull_iff_contributions, hnull]
  rw [prove, prove, same, hn]

/-- A match is proved exhaustive exactly when its unguarded arms handle `null`, if the subject
may be `null`, and resolve every variant. -/
theorem verdict_prove_eq_exhaustive_iff :
    (prove u m).verdict = .exhaustive ↔
      (m.nullable = true → m.HandlesNull) ∧ ∀ v ∈ u.ids, m.Resolves v := by
  rw [Coverage.verdict_eq_exhaustive_iff, unresolved_prove, List.filter_eq_nil_iff]
  have hnull : (m.nullable = false ∨ (prove u m).nullHandled = true) ↔
      (m.nullable = true → m.HandlesNull) := by
    rw [nullHandled_prove]
    cases m.nullable <;> simp
  have hvariants : (∀ w ∈ u.variants, ¬ decide (¬ m.Resolves w.id) = true) ↔
      ∀ v ∈ u.ids, m.Resolves v := by
    simp [ClosedUnion.ids]
  exact and_congr hnull hvariants

end Declarative

/-- **`prove` computes exactly the declarative coverage of the unguarded arms.** `null` is handled
iff some unguarded arm handles it; the unresolved ids are the ids of the union, in declaration
order, that no unguarded arm resolves; the report keeps the subject's nullability; the verdict is
exhaustive iff the subject cannot be `null` or `null` is handled, and nothing is unresolved.

So the report depends on nothing else: reordering or repeating arms, adding guarded arms, or
splitting an unguarded alternation into one arm per alternative changes neither what is resolved
nor whether `null` is handled, and the last conjunct says that then the report is the same. -/
theorem prove_eq_declarative (u : ClosedUnion) (m : MatchConstruct) :
    ((prove u m).nullHandled = true ↔ m.HandlesNull) ∧
      (prove u m).unresolvedIds = u.ids.filter (fun v => ¬ m.Resolves v) ∧
      (prove u m).nullable = m.nullable ∧
      ((prove u m).verdict = .exhaustive ↔
        (m.nullable = false ∨ (prove u m).nullHandled = true) ∧ (prove u m).unresolved = []) ∧
      ∀ m' : MatchConstruct, m'.nullable = m.nullable → (∀ v, m'.Resolves v ↔ m.Resolves v) →
        (m'.HandlesNull ↔ m.HandlesNull) → prove u m' = prove u m := by
  refine ⟨nullHandled_prove u m, ?_, rfl, (prove u m).verdict_eq_exhaustive_iff,
    fun m' hn hr hnull => prove_eq_of_coverage u m hn hr hnull⟩
  rw [Coverage.unresolvedIds, unresolved_prove, ClosedUnion.ids, List.filter_map]
  rfl

end MatchCoverage
