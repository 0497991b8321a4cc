import Mathlib.Data.List.Induction
import Mathlib.Data.List.Nodup
import MatchCoverage.Gate.Config

/-!
# The last rule added for a code is the one that applies

A gate's configuration starts from the standard rules, all of them or those for some codes, and
takes further rules one at a time; each replaces the rule for its code. Two facts follow for every
such sequence:

* the configuration never holds two rules for one code (`oneRulePerCode_foldl_withRule`);
* the rule looked up for a code is the last one added for it, and the standard rule for the code
  when none was added, provided the start kept that code (`find?_foldl_withRule`).

`ruleFor?` adds one gate of its own: a code that no coverage proof answers has no rule, whatever
the configuration lists for it.

**The law** (`ruleFor_last_writer_wins`).
-/

namespace MatchCoverage

namespace Gate

namespace Config

/-- The standard rule for a code: `S3001` for a missing variant, `S3002` for a missing `null`, and
none for a code that no coverage proof answers. -/
def standardRule? : Code → Option SuppressionRule
  | .nonExhaustive => some SuppressionRule.allVariantsHandled
  | .unhandledNull => some SuppressionRule.nullAndVariantsHandled
  | .unreachableArm => none

/-- No two rules of the configuration silence the same code. -/
def OneRulePerCode (c : Config) : Prop :=
  (c.rules.map (·.code)).Nodup

/-! ## One added rule -/

/-- Looking a code up among the rules a filter on codes keeps finds the rule the whole list has
for it, when the filter keeps that code, and nothing otherwise. -/
theorem find?_filter_code (rules : List SuppressionRule) (keep : Code → Bool) (code : Code) :
    (rules.filter fun r => keep r.code).find? (·.code == code) =
      if keep code then rules.find? (·.code == code) else none := by
  rw [List.find?_filter]
  by_cases kept : keep code = true
  · rw [if_pos kept]
    congr 1
    funext x
    by_cases hx : x.code = code <;> simp [hx, kept]
  · rw [if_neg kept, List.find?_eq_none]
    intro x _
    by_cases hx : x.code = code <;> simp [hx, kept]

/-- The rule for a code after adding `r`: `r` itself if it is for that code, else the rule the
configuration had. -/
theorem find?_withRule (c : Config) (r : SuppressionRule) (code : Code) :
    (c.withRule r).rules.find? (·.code == code) =
      if r.code = code then some r else c.rules.find? (·.code == code) := by
  rw [rules_withRule, List.find?_append, find?_filter_code c.rules (· != r.code)]
  by_cases same : r.code = code
  · simp [same]
  · simp [same, Ne.symm same]

theorem oneRulePerCode_withRule {c : Config} (h : c.OneRulePerCode) (r : SuppressionRule) :
    (c.withRule r).OneRulePerCode := by
  unfold OneRulePerCode
  rw [rules_withRule, List.map_append, List.nodup_append]
  refine ⟨(List.filter_sublist.map _).nodup h, List.nodup_singleton _, ?_⟩
  intro a ha b hb
  obtain ⟨x, hx, rfl⟩ := List.mem_map.mp ha
  rw [List.map_singleton, List.mem_singleton] at hb
  have other := (List.mem_filter.mp hx).2
  rw [hb]
  simpa using other

/-! ## A sequence of added rules -/

theorem oneRulePerCode_foldl_withRule {c : Config} (h : c.OneRulePerCode)
    (rs : List SuppressionRule) : (rs.foldl withRule c).OneRulePerCode := by
  induction rs generalizing c with
  | nil => exact h
  | cons r rs ih => exact ih (oneRulePerCode_withRule h r)

/-- After adding rules in order, the rule for a code is the last one added for it, else the one the
start had. -/
theorem find?_foldl_withRule (c : Config) (rs : List SuppressionRule) (code : Code) :
    (rs.foldl withRule c).rules.find? (·.code == code) =
      (rs.filter (·.code == code)).getLast?.or (c.rules.find? (·.code == code)) := by
  -- on the rules from the last one back, since the last rule added for the code decides
  induction rs using List.reverseRecOn with
  | nil => rfl
  | append_singleton rs r ih =>
    rw [List.foldl_append, List.foldl_cons, List.foldl_nil, find?_withRule, List.filter_append]
    by_cases same : r.code = code
    · simp [same]
    · simp [same, ih]

/-! ## The starting configurations -/

theorem find?_standard (code : Code) :
    standard.rules.find? (·.code == code) = standardRule? code := by
  cases code <;> rfl

theorem find?_withCodes (codes : List Code) (code : Code) :
    (withCodes codes).rules.find? (·.code == code) =
      if code ∈ codes then standardRule? code else none := by
  rw [withCodes, find?_filter_code standard.rules codes.contains, find?_standard]
  by_cases kept : code ∈ codes <;> simp [kept]

theorem oneRulePerCode_standard : standard.OneRulePerCode := by
  unfold OneRulePerCode
  decide

theorem oneRulePerCode_withCodes (codes : List Code) : (withCodes codes).OneRulePerCode :=
  (List.filter_sublist.map _).nodup oneRulePerCode_standard

/-- **Each code has one rule, and the last one added wins.** After the standard rules for some
codes, or all of them, and then rules `rs` added in order, no code has two rules, and the rule
for a code is: none when no coverage proof answers the code; otherwise the last rule of `rs` for
it; otherwise the standard rule for the code if the start kept it. -/
theorem ruleFor_last_writer_wins (codes : List Code) (rs : List SuppressionRule) :
    (rs.foldl withRule (withCodes codes)).OneRulePerCode ∧
    (rs.foldl withRule standard).OneRulePerCode ∧
    ∀ code : Code,
      (rs.foldl withRule (withCodes codes)).ruleFor? code =
        (if code.isCompleteness then
          (rs.filter (·.code == code)).getLast?.or
            (if code ∈ codes then standardRule? code else none)
        else none) ∧
      (rs.foldl withRule standard).ruleFor? code =
        (if code.isCompleteness then (rs.filter (·.code == code)).getLast?.or (standardRule? code)
        else none) := by
  refine ⟨oneRulePerCode_foldl_withRule (oneRulePerCode_withCodes codes) rs,
    oneRulePerCode_foldl_withRule oneRulePerCode_standard rs, fun code => ⟨?_, ?_⟩⟩
  · rw [ruleFor?, find?_foldl_withRule, find?_withCodes]
  · rw [ruleFor?, find?_foldl_withRule, find?_standard]

end Config

end Gate

end MatchCoverage
