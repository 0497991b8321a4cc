import MatchCoverage.Union

/-!
# Coverage reports

A `Coverage` is what a proof over a match establishes: whether `null` is handled, whether the
subject may be `null` at all, and which variants no arm resolves, in declaration order.

The verdict checks `null` first: a match over a nullable subject that leaves `null` unhandled is
never exhaustive, however many variants it covers. Otherwise it is exhaustive exactly when no
variant is left unresolved.

The *missing patterns* are what a report lists as not covered: the names of the unresolved
variants, and `null` when it is missing. They are sorted by code point, which is the order of
their UTF-8 bytes, and each text is listed once; a variant named `null` therefore merges with the
missing `null`, and two variants of one name show once.
-/

namespace MatchCoverage

/-- The outcome of a coverage proof. -/
inductive Verdict where
  /-- Every value the subject can hold is matched by an unguarded arm. -/
  | exhaustive
  /-- Some value may reach no arm. -/
  | notExhaustive
deriving DecidableEq, Repr

/-- What a coverage proof established about one match. -/
structure Coverage where
  /-- Some unguarded arm matches `null`. -/
  nullHandled : Bool
  /-- The subject may be `null`. -/
  nullable : Bool
  /-- The variants no unguarded arm resolves, in declaration order. -/
  unresolved : List Variant
deriving DecidableEq, Repr

namespace Coverage

/-- The subject may be `null` and no arm handles it. -/
def missingNull (c : Coverage) : Bool :=
  c.nullable && !c.nullHandled

/-- Exhaustive unless `null` is missing or a variant is unresolved; `null` is checked first. -/
def verdict (c : Coverage) : Verdict :=
  if c.missingNull then .notExhaustive
  else if c.unresolved.isEmpty then .exhaustive
  else .notExhaustive

/-- The verdict is exhaustive. -/
def isExhaustive (c : Coverage) : Bool :=
  c.verdict == .exhaustive

theorem isExhaustive_eq_true_iff (c : Coverage) : c.isExhaustive = true ↔ c.verdict = .exhaustive := by
  simp [isExhaustive]

/-- The identities of the unresolved variants, in declaration order. -/
def unresolvedIds (c : Coverage) : List TypeId :=
  c.unresolved.map (·.id)

/-- Drops each element that equals the one before it. -/
def dropRepeats : List String → List String
  | a :: rest@(b :: _) => if a = b then dropRepeats rest else a :: dropRepeats rest
  | l => l

/-- The texts of what is not covered, sorted by code point, each once. -/
def missingPatterns (c : Coverage) : List String :=
  let names := c.unresolved.map (·.name) ++ (if c.missingNull then ["null"] else [])
  dropRepeats (names.mergeSort fun a b => decide (a ≤ b))

example : missingPatterns ⟨false, true, [⟨⟨17⟩, "null"⟩, ⟨⟨18⟩, "B"⟩, ⟨⟨19⟩, "B"⟩]⟩ = ["B", "null"] := by
  cbv

end Coverage

end MatchCoverage
