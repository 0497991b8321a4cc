/-!
# Diagnostic codes

Every diagnostic that the analysis reports carries one of three codes. Two of them are
*completeness* codes, the ones a proof of exhaustiveness can answer: a match that misses a variant
(`W3001`), and a match that misses `null` (`W3002`). The third, an unreachable arm (`W3003`), is
about redundancy and no coverage proof speaks to it.

A code is read from its text without regard to case. Only the letter `w` has `W` as its upper
case and digits have none, so upper-casing the ASCII letters of a text decides exactly the texts
that full upper-casing would.
-/

namespace MatchCoverage

/-- What a diagnostic reports. -/
inductive Code where
  /-- A match does not handle every variant of its subject's closed union. -/
  | nonExhaustive
  /-- A match over a nullable subject does not handle `null`. -/
  | unhandledNull
  /-- A match arm can never be selected. -/
  | unreachableArm
deriving DecidableEq, Repr

namespace Code

/-- Every code, in the order of their numbers. -/
def all : List Code := [.nonExhaustive, .unhandledNull, .unreachableArm]

/-- The code as it is written in reports. -/
def text : Code → String
  | .nonExhaustive => "W3001"
  | .unhandledNull => "W3002"
  | .unreachableArm => "W3003"

instance : ToString Code := ⟨text⟩

/-- A one-line statement of what the code reports. -/
def description : Code → String
  | .nonExhaustive => "match does not handle all possible values"
  | .unhandledNull => "match does not handle `null`"
  | .unreachableArm => "unreachable match arm"

/-- The codes that a proof of exhaustiveness can answer. -/
def isCompleteness : Code → Bool
  | .nonExhaustive | .unhandledNull => true
  | .unreachableArm => false

/-- The code whose text equals `s` once its letters are upper-cased, if any. -/
def parse? (s : String) : Option Code :=
  all.find? fun c => c.text == s.toUpper

/-- Why a text is not a code: the text itself, kept as it was given. -/
structure ParseError where
  /-- The text that names no code. -/
  text : String
deriving DecidableEq, Repr

/-- Reads a code from its text, ignoring case; a text that names no code is the error. -/
def parse (s : String) : Except ParseError Code :=
  match parse? s with
  | some c => .ok c
  | none => .error ⟨s⟩

example : parse? "w3002" = some .unhandledNull ∧ parse? "W3004" = none := by decide +kernel

end Code

end MatchCoverage
