import MatchCoverage.Diagnostic.Basic

/-!
# Suppressions

A suppression silences one reported occurrence; it never changes the diagnostic. A
`SuppressionRule` says which code it silences and why, under an identifier of its own. Two rules
come with the analysis: `S3001` silences a missing-variant warning when every variant is handled,
and `S3002` silences a missing-`null` warning when `null` and every variant are handled.

A `DiagnosticSink` is whatever receives suppressions: a state and what one suppression of a
diagnostic under a rule does to it. The gate forwards to any sink. The `SuppressionLog` is the sink
that records, in order, each occurrence that was silenced: the rule's identifier, the diagnostic's
code, and where the diagnostic points, if anywhere. An occurrence at a span is suppressed when some
entry points exactly there.
-/

namespace MatchCoverage

/-- A rule that silences diagnostics of one code, with its reason. -/
structure SuppressionRule where
  /-- The rule's identifier. -/
  id : String
  /-- The code the rule silences. -/
  code : Code
  /-- Why an occurrence it silences is safe to silence. -/
  justification : String := ""
deriving DecidableEq, Repr

namespace SuppressionRule

/-- Silences a missing-variant warning over a match that handles every variant. -/
def allVariantsHandled : SuppressionRule :=
  ⟨"S3001", .nonExhaustive, "every variant of the closed union is handled by the match arms"⟩

/-- Silences a missing-`null` warning over a match that handles `null` and every variant. -/
def nullAndVariantsHandled : SuppressionRule :=
  ⟨"S3002", .unhandledNull,
    "`null` and every variant of the closed union are handled by the match arms"⟩

end SuppressionRule

/-- A receiver of suppressions, as a state and what one suppression does to it. -/
class DiagnosticSink (σ : Type) where
  /-- Receives the suppression of a diagnostic under a rule. -/
  suppress : σ → Diagnostic → SuppressionRule → σ

/-- One silenced occurrence. -/
structure Suppression where
  /-- The identifier of the rule that silenced it. -/
  ruleId : String
  /-- The code of the silenced diagnostic. -/
  code : Code
  /-- Where the silenced diagnostic points, if anywhere. -/
  span : Option Span
deriving DecidableEq, Repr

/-- The occurrences silenced so far, in order. -/
structure SuppressionLog where
  /-- The entries, oldest first. -/
  entries : List Suppression
deriving DecidableEq, Repr

namespace SuppressionLog

/-- The log with no entry. -/
def empty : SuppressionLog := ⟨[]⟩

/-- Records that a rule silenced a diagnostic. -/
def record (log : SuppressionLog) (d : Diagnostic) (r : SuppressionRule) : SuppressionLog :=
  ⟨log.entries ++ [⟨r.id, d.code, d.primarySpan?⟩]⟩

/-- The number of entries. -/
def size (log : SuppressionLog) : Nat :=
  log.entries.length

/-- No occurrence has been silenced. -/
def isEmpty (log : SuppressionLog) : Bool :=
  log.entries.isEmpty

/-- Some silenced occurrence points exactly at `s`. -/
def isSuppressed (log : SuppressionLog) (s : Span) : Bool :=
  log.entries.any (·.span == some s)

/-- The log receives a suppression by recording it. -/
instance : DiagnosticSink SuppressionLog := ⟨record⟩

end SuppressionLog

end MatchCoverage
