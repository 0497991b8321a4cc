import MatchCoverage.Span
import MatchCoverage.Diagnostic.Code

/-!
# Diagnostics

A `Diagnostic` is one reported occurrence: a code, a severity, a message, labels that point at
spans, and notes. The first primary label locates the occurrence; a diagnostic without one points
nowhere.

The text of a diagnostic is its severity, its code in brackets and its message on the first line;
then one line per label, marked `-->` when primary and indented alike when secondary, giving the
span and the label's message; then one line per note.

The analysis reports two kinds itself: a match that misses variants (`W3001`), with a note listing
what is not covered when anything is listed, and a match that misses `null` (`W3002`). Both are
warnings with one primary label at the match.
-/

namespace MatchCoverage

/-- How serious a diagnostic is. -/
inductive Severity where
  | error
  | warning
  | note
deriving DecidableEq, Repr

/-- The severity as it is written. -/
def Severity.text : Severity → String
  | .error => "error"
  | .warning => "warning"
  | .note => "note"

/-- A span that a diagnostic points at, with what it says there. -/
structure Label where
  /-- The span pointed at. -/
  span : Span
  /-- What the label says. -/
  message : String
  /-- A primary label locates the occurrence; a secondary one adds context. -/
  primary : Bool := true
deriving DecidableEq, Repr

/-- The line of a label: its marker, its span and its message. -/
def Label.render (l : Label) : String :=
  "\n  " ++ (if l.primary then "-->" else "   ") ++ " " ++ l.span.render ++ ": " ++ l.message

/-- One reported occurrence. -/
structure Diagnostic where
  /-- What is reported. -/
  code : Code
  /-- How serious it is. -/
  severity : Severity
  /-- The headline. -/
  message : String := ""
  /-- The spans pointed at, in order. -/
  labels : List Label := []
  /-- Further remarks, in order. -/
  notes : List String := []
deriving DecidableEq, Repr

namespace Diagnostic

/-- An error with the given code and nothing else yet. -/
def error (code : Code) : Diagnostic := ⟨code, .error, "", [], []⟩

/-- A warning with the given code and nothing else yet. -/
def warning (code : Code) : Diagnostic := ⟨code, .warning, "", [], []⟩

/-- Sets the headline. -/
def withMessage (d : Diagnostic) (message : String) : Diagnostic :=
  { d with message := message }

/-- Adds a primary label after the others. -/
def withLabel (d : Diagnostic) (span : Span) (message : String) : Diagnostic :=
  { d with labels := d.labels ++ [⟨span, message, true⟩] }

/-- Adds a secondary label after the others. -/
def withSecondaryLabel (d : Diagnostic) (span : Span) (message : String) : Diagnostic :=
  { d with labels := d.labels ++ [⟨span, message, false⟩] }

/-- Adds a note after the others. -/
def withNote (d : Diagnostic) (note : String) : Diagnostic :=
  { d with notes := d.notes ++ [note] }

/-- The span of the first primary label, which locates the occurrence. -/
def primarySpan? (d : Diagnostic) : Option Span :=
  (d.labels.find? (·.primary)).map (·.span)

/-- The diagnostic is an error. -/
def isError (d : Diagnostic) : Bool :=
  d.severity == .error

/-- The text of a diagnostic: headline, then a line per label, then a line per note. -/
def render (d : Diagnostic) : String :=
  d.severity.text ++ " [" ++ d.code.text ++ "]: " ++ d.message ++
    String.join (d.labels.map Label.render) ++
    String.join (d.notes.map fun n => "\n  = note: " ++ n)

/-- A match at `span` does not handle every variant; `missing` lists what is not covered. -/
def nonExhaustiveMatch (span : Span) (missing : List String) : Diagnostic :=
  let d := (warning .nonExhaustive).withMessage
      "match does not handle all possible values of its subject type" |>.withLabel span
      "match is not exhaustive"
  if missing.isEmpty then d else d.withNote ("patterns not covered: " ++ ", ".intercalate missing)

/-- A match at `span` does not handle a `null` subject. -/
def unhandledNull (span : Span) : Diagnostic :=
  (warning .unhandledNull).withMessage "match does not handle `null` subjects" |>.withLabel span
    "`null` is not covered"

example : (nonExhaustiveMatch ⟨3, 9⟩ ["A", "B"]).render =
    "warning [W3001]: match does not handle all possible values of its subject type\n" ++
    "  --> 3..9: match is not exhaustive\n  = note: patterns not covered: A, B" := by
  decide +kernel

end Diagnostic

end MatchCoverage
