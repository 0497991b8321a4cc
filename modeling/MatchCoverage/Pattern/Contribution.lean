import MatchCoverage.Pattern.Basic

/-!
# What a pattern contributes to a coverage proof

Two relations say, without reference to the prover, what one classified pattern establishes
about the values a closed union can hold.

* `Pattern.Resolves v p`: `p` matches every instance of the variant `v`. A wildcard does; a test
  for `v` does; a positional pattern over `v` does when every sub-pattern is total, since then no
  field value escapes it; an alternation does when one of its alternatives does.
* `Pattern.HandlesNull p`: `p` matches `null`. A wildcard does, the `null` literal does, and an
  alternation does when one of its alternatives does.

Nothing else resolves a variant or handles `null`: property tests, refinements and unprovable
patterns match a part of a variant at most. Lifted to a match, a variant is resolved when some
*unguarded* arm resolves it, since a guard may refuse any value. These relations are the measure
that the prover's state is judged by.
-/

namespace MatchCoverage

namespace Pattern

/-- The pattern matches every instance of the variant `v`. -/
inductive Resolves (v : TypeId) : Pattern → Prop where
  /-- A wildcard matches every instance. -/
  | wildcard : Resolves v .wildcard
  /-- A test for `v` matches every instance of `v`. -/
  | variantTest : Resolves v (.variantTest v)
  /-- A positional pattern over `v` whose sub-patterns are all total matches every instance. -/
  | positional {subs : List Pattern} (total : ∀ s ∈ subs, s.isTotal = true) :
      Resolves v (.positional v subs)
  /-- An alternation matches every instance when one of its alternatives does. -/
  | anyOf {alts : List Pattern} {a : Pattern} (mem : a ∈ alts) (h : Resolves v a) :
      Resolves v (.anyOf alts)

/-- The pattern matches `null`. -/
inductive HandlesNull : Pattern → Prop where
  /-- A wildcard matches `null`. -/
  | wildcard : HandlesNull .wildcard
  /-- The `null` literal matches `null`. -/
  | nullLiteral : HandlesNull .nullLiteral
  /-- An alternation matches `null` when one of its alternatives does. -/
  | anyOf {alts : List Pattern} {a : Pattern} (mem : a ∈ alts) (h : HandlesNull a) :
      HandlesNull (.anyOf alts)

end Pattern

namespace MatchConstruct

/-- Some unguarded arm matches every instance of the variant `v`. -/
def Resolves (m : MatchConstruct) (v : TypeId) : Prop :=
  ∃ a ∈ m.arms, a.guarded = false ∧ a.pattern.Resolves v

/-- Some unguarded arm matches `null`. -/
def HandlesNull (m : MatchConstruct) : Prop :=
  ∃ a ∈ m.arms, a.guarded = false ∧ a.pattern.HandlesNull

end MatchConstruct

end MatchCoverage
