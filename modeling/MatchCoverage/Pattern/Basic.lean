import MatchCoverage.Span
import MatchCoverage.TypeId

/-!
# Classified patterns

The closed set of pattern shapes that a coverage proof understands. Classification maps every
tree of the host's grammar into it; whatever lies outside the structurally decidable part becomes
a `refinement` (a constant or relational test, which matches a strict subset of its type) or
`unprovable`, and neither proves anything.

Two properties of a pattern matter to a proof:

* a pattern is *total* when, used as a sub-pattern of a field, it matches every value of that
  field: a wildcard, or an alternation with a total alternative. Classification maps a test for
  exactly the field's declared type to a wildcard, so no other shape needs to be total.
* a pattern is *inert* when it can never resolve a variant or handle `null`: property tests,
  refinements and unprovable patterns; a positional pattern with a sub-pattern that is not total;
  an alternation whose alternatives are all inert.

An `Arm` is a classified pattern with what the proof needs of its arm: the guard, and the index
and span that reports point at. A `MatchConstruct` is the arms of one match and whether its
subject may be `null`.
-/

namespace MatchCoverage

/-- A classified pattern. -/
inductive Pattern where
  /-- Matches every value, `null` included. -/
  | wildcard
  /-- Matches `null` only. -/
  | nullLiteral
  /-- Matches every instance of one variant. -/
  | variantTest (v : TypeId)
  /-- Matches the instances of a variant whose deconstructed fields match the sub-patterns
  position by position; built only when the variant offers a deconstruction of that length. -/
  | positional (v : TypeId) (subs : List Pattern)
  /-- Constrains named fields of a variant; never proves coverage. -/
  | propertyTest (v : TypeId) (props : List (String × Pattern))
  /-- Matches a strict subset of a type, such as one constant. -/
  | refinement
  /-- Matches what any alternative matches. -/
  | anyOf (alts : List Pattern)
  /-- Outside the decidable grammar; never proves coverage. -/
  | unprovable
deriving Repr

namespace Pattern

mutual

/-- A pattern is total when it matches every value of the field it was classified against: a
wildcard, or an alternation with a total alternative. -/
def isTotal : Pattern → Bool
  | .wildcard => true
  | .anyOf alts => anyTotal alts
  | _ => false

/-- Some alternative is total. -/
def anyTotal : List Pattern → Bool
  | [] => false
  | p :: ps => p.isTotal || anyTotal ps

end

/-- Every sub-pattern is total. -/
def allTotal (ps : List Pattern) : Bool :=
  ps.all isTotal

mutual

/-- A pattern is inert when it can never resolve a variant or handle `null`. -/
def isInert : Pattern → Bool
  | .wildcard | .nullLiteral | .variantTest _ => false
  | .positional _ subs => !allTotal subs
  | .propertyTest _ _ | .refinement | .unprovable => true
  | .anyOf alts => allInert alts

/-- Every alternative is inert. -/
def allInert : List Pattern → Bool
  | [] => true
  | p :: ps => p.isInert && allInert ps

end

example : (anyOf [.refinement, .wildcard]).isTotal ∧ (positional ⟨17⟩ [.refinement]).isInert := by
  decide

end Pattern

/-- A classified match arm. -/
structure Arm where
  /-- The arm's classified pattern. -/
  pattern : Pattern
  /-- The arm carries a guard; a guarded arm contributes nothing to a proof. -/
  guarded : Bool := false
  /-- The arm's position in its match. -/
  index : Nat := 0
  /-- Where the arm stands in the source. -/
  span : Span := Span.dummy
deriving Repr

/-- One match under analysis: whether its subject may be `null`, and its arms. The order of the
arms is kept for reports only; a proof treats them as a collection of contributions. -/
structure MatchConstruct where
  /-- The subject may be `null`. -/
  nullable : Bool
  /-- The classified arms, in source order. -/
  arms : List Arm
deriving Repr

end MatchCoverage
