import MatchCoverage.Diagnostic.Suppression

/-!
# Gate configuration

A gate's configuration is the list of suppression rules it may apply. By default it holds the two
rules of the analysis, `S3001` for missing variants and `S3002` for missing `null`.

Restricting to some codes keeps the default rules for those codes. Adding a rule replaces any rule
for the same code and puts the new one last, so each code has at most one rule after any sequence
of additions to a configuration that had at most one per code.

The rule for a code is the first one listed for it; a code that no coverage proof can answer, such
as an unreachable arm, has no rule whatever the list holds.
-/

namespace MatchCoverage

namespace Gate

/-- The suppression rules a gate may apply. -/
structure Config where
  /-- The rules, in order. -/
  rules : List SuppressionRule
deriving DecidableEq, Repr

namespace Config

/-- The two rules of the analysis: missing variants, then missing `null`. -/
def standard : Config :=
  ⟨[SuppressionRule.allVariantsHandled, SuppressionRule.nullAndVariantsHandled]⟩

/-- The standard rules for the listed codes only. -/
def withCodes (codes : List Code) : Config :=
  ⟨standard.rules.filter fun r => codes.contains r.code⟩

/-- Replaces any rule for the same code by `r`, which goes last. -/
def withRule (c : Config) (r : SuppressionRule) : Config :=
  ⟨c.rules.filter (·.code != r.code) ++ [r]⟩

/-- The rule that silences `code`: none unless the code is a completeness code, else the first
listed for it. -/
def ruleFor? (c : Config) (code : Code) : Option SuppressionRule :=
  if code.isCompleteness then c.rules.find? (·.code == code) else none

@[simp] theorem rules_withRule (c : Config) (r : SuppressionRule) :
    (c.withRule r).rules = c.rules.filter (·.code != r.code) ++ [r] := rfl

example : (standard.withRule ⟨"X", .nonExhaustive, ""⟩).rules.map (·.id) = ["S3002", "X"] := by
  decide

end Config

end Gate

end MatchCoverage
