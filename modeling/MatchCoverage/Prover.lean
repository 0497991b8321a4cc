import MatchCoverage.Coverage
import MatchCoverage.Pattern.Basic

/-!
# The coverage prover

A `Prover` keeps the state of a proof over one closed union: the variants that no arm has resolved
yet, and whether some arm has handled `null`. It starts with every variant unresolved and `null`
unhandled, and each unguarded arm contributes its classified pattern:

| pattern | effect |
|---|---|
| wildcard | `null` handled, every variant resolved |
| `null` | `null` handled |
| variant test of `v` | `v` resolved |
| positional over `v` | `v` resolved when every sub-pattern is total |
| alternation | each alternative applied |
| anything else | nothing |

The unresolved variants only ever shrink and the `null` flag only ever turns true, so the order of
the arms does not matter and an arm added never loses coverage. The unresolved variants are kept
in declaration order, as a sublist of the union's; that is a field of the type.

Two provers over one union merge into the proof both arm sets make together: `null` is handled if
either handles it, and a variant stays unresolved only if both leave it so.
-/

namespace MatchCoverage

/-- The state of a coverage proof over one closed union. -/
structure Prover where
  /-- The union under analysis. -/
  union : ClosedUnion
  /-- The variants no arm has resolved, in declaration order. -/
  unresolved : List Variant
  /-- Some arm has handled `null`. -/
  nullHandled : Bool
  /-- The unresolved variants are some of the union's, in the union's order. -/
  sublist : unresolved.Sublist union.variants

namespace Prover

/-- The proof before any arm: every variant unresolved, `null` unhandled. -/
def new (u : ClosedUnion) : Prover :=
  ⟨u, u.variants, false, List.Sublist.refl _⟩

/-- Marks the variant `v` resolved. -/
def resolve (p : Prover) (v : TypeId) : Prover :=
  { p with
    unresolved := p.unresolved.filter (·.id != v)
    sublist := List.filter_sublist.trans p.sublist }

/-- Marks `null` handled and every variant resolved. -/
def resolveAll (p : Prover) : Prover :=
  { p with unresolved := [], nullHandled := true, sublist := List.nil_sublist _ }

/-- Marks `null` handled. -/
def handleNull (p : Prover) : Prover :=
  { p with nullHandled := true }

mutual

/-- Contributes one classified pattern to the proof. -/
def apply (p : Prover) : Pattern → Prover
  | .wildcard => p.resolveAll
  | .nullLiteral => p.handleNull
  | .variantTest v => p.resolve v
  | .positional v subs => if Pattern.allTotal subs then p.resolve v else p
  | .anyOf alts => p.applyAll alts
  | .propertyTest _ _ | .refinement | .unprovable => p

/-- Contributes each alternative in turn. -/
def applyAll (p : Prover) : List Pattern → Prover
  | [] => p
  | a :: as => (p.apply a).applyAll as

end

@[simp] theorem unresolved_new (u : ClosedUnion) : (new u).unresolved = u.variants := rfl

@[simp] theorem nullHandled_new (u : ClosedUnion) : (new u).nullHandled = false := rfl

@[simp] theorem unresolved_resolve (p : Prover) (v : TypeId) :
    (p.resolve v).unresolved = p.unresolved.filter (·.id != v) := rfl

@[simp] theorem nullHandled_resolve (p : Prover) (v : TypeId) :
    (p.resolve v).nullHandled = p.nullHandled := rfl

mutual

/-- Contributing a pattern keeps the union under analysis. -/
theorem union_apply (p : Prover) : (q : Pattern) → (p.apply q).union = p.union
  | .wildcard | .nullLiteral | .variantTest _ => rfl
  | .positional _ subs => by
    simp only [apply]
    split <;> rfl
  | .anyOf alts => union_applyAll p alts
  | .propertyTest _ _ | .refinement | .unprovable => rfl

/-- Contributing alternatives keeps the union under analysis. -/
theorem union_applyAll (p : Prover) : (qs : List Pattern) → (p.applyAll qs).union = p.union
  | [] => rfl
  | q :: qs => (union_applyAll (p.apply q) qs).trans (union_apply p q)

end

mutual

/-- Contributing a pattern only ever resolves variants: what stays unresolved was unresolved. -/
theorem unresolved_apply_sublist (p : Prover) :
    (q : Pattern) → (p.apply q).unresolved.Sublist p.unresolved
  | .wildcard => List.nil_sublist _
  | .nullLiteral => List.Sublist.refl _
  | .variantTest _ => List.filter_sublist
  | .positional _ subs => by
    simp only [apply]
    split
    · exact List.filter_sublist
    · exact List.Sublist.refl _
  | .anyOf alts => unresolved_applyAll_sublist p alts
  | .propertyTest _ _ | .refinement | .unprovable => List.Sublist.refl _

/-- Contributing alternatives only ever resolves variants. -/
theorem unresolved_applyAll_sublist (p : Prover) :
    (qs : List Pattern) → (p.applyAll qs).unresolved.Sublist p.unresolved
  | [] => List.Sublist.refl _
  | q :: qs => (unresolved_applyAll_sublist (p.apply q) qs).trans (unresolved_apply_sublist p q)

end

/-- Contributes an arm's pattern, unless the arm is guarded. -/
def applyArm (p : Prover) (arm : Arm) : Prover :=
  if arm.guarded then p else p.apply arm.pattern

theorem applyArm_of_guarded (p : Prover) (arm : Arm) (h : arm.guarded = true) :
    p.applyArm arm = p := by
  simp [applyArm, h]

theorem applyArm_of_unguarded (p : Prover) (arm : Arm) (h : arm.guarded = false) :
    p.applyArm arm = p.apply arm.pattern := by
  simp [applyArm, h]

/-- Contributes the arms in order. -/
def applyArms (p : Prover) (arms : List Arm) : Prover :=
  arms.foldl applyArm p

/-- The proof that two arm sets make together. -/
def merge (p q : Prover) : Prover :=
  { p with
    nullHandled := p.nullHandled || q.nullHandled
    unresolved := p.unresolved.filter fun v => q.unresolved.any (·.id == v.id)
    sublist := List.filter_sublist.trans p.sublist }

@[simp] theorem unresolved_merge (p q : Prover) :
    (p.merge q).unresolved = p.unresolved.filter fun v => q.unresolved.any (·.id == v.id) := rfl

@[simp] theorem nullHandled_merge (p q : Prover) :
    (p.merge q).nullHandled = (p.nullHandled || q.nullHandled) := rfl

/-- The number of variants not yet resolved. -/
def remaining (p : Prover) : Nat :=
  p.unresolved.length

/-- The report of the proof so far, for a subject that may or may not be `null`. -/
def finish (p : Prover) (nullable : Bool) : Coverage :=
  ⟨p.nullHandled, nullable, p.unresolved⟩

@[simp] theorem unresolved_finish (p : Prover) (nullable : Bool) :
    (p.finish nullable).unresolved = p.unresolved := rfl

@[simp] theorem nullHandled_finish (p : Prover) (nullable : Bool) :
    (p.finish nullable).nullHandled = p.nullHandled := rfl

@[simp] theorem nullable_finish (p : Prover) (nullable : Bool) :
    (p.finish nullable).nullable = nullable := rfl

end Prover

/-- The coverage that the unguarded arms of a match establish over a closed union. -/
def prove (u : ClosedUnion) (m : MatchConstruct) : Coverage :=
  ((Prover.new u).applyArms m.arms).finish m.nullable

end MatchCoverage
