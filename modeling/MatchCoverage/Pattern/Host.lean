import MatchCoverage.Span
import MatchCoverage.TypeId

/-!
# The host's pattern grammar

A host reports each arm of a match as a tree in this grammar: discards and bindings, type tests
and declarations, constants and relational tests, recursive patterns with positional and property
sub-patterns, the combinators `or`, `and` and `not`, list patterns, and `other` for whatever the
host does not map. Nothing here carries meaning on its own; what a tree proves about coverage is
decided by classification.

A recursive pattern has four optional parts, each absent or present: a type, a positional list, a
property list and a designation. An empty list is present; absence and emptiness differ.
-/

namespace MatchCoverage

/-- A constant in a pattern. A floating-point constant is kept as its bits, so that constants
compare by identity. -/
inductive Constant where
  | null
  | bool (b : Bool)
  | int (n : Int64)
  | float (bits : UInt64)
  | char (c : Char)
  | str (s : String)
deriving DecidableEq, Repr

/-- The operator of a relational test. -/
inductive Relation where
  /-- `<` -/
  | lt
  /-- `<=` -/
  | le
  /-- `>` -/
  | gt
  /-- `>=` -/
  | ge
deriving DecidableEq, Repr

/-- A pattern tree in the host's grammar. -/
inductive HostPattern where
  /-- Matches anything and binds nothing. -/
  | discard
  /-- Matches anything and binds it to a name. -/
  | binding (name : String)
  /-- Matches the values of one declared type. -/
  | typeTest (ty : TypeId)
  /-- Matches the values of one declared type and binds them to a name. -/
  | declaration (ty : TypeId) (name : String)
  /-- Matches one constant, `null` included. -/
  | constant (c : Constant)
  /-- Matches the values that stand in a relation to a constant. -/
  | relational (op : Relation) (c : Constant)
  /-- A recursive pattern: an optional type, optional positional sub-patterns, optional
  property sub-patterns, each naming the field it tests, and an optional designation. -/
  | record (ty : Option TypeId) (positional : Option (List HostPattern))
      (properties : Option (List (String × HostPattern))) (designation : Option String)
  /-- Matches what any alternative matches. -/
  | anyOf (alts : List HostPattern)
  /-- Matches what every part matches. -/
  | allOf (parts : List HostPattern)
  /-- Matches what the inner pattern does not. -/
  | negation (inner : HostPattern)
  /-- Matches a sequence element by element. -/
  | list (items : List HostPattern)
  /-- A pattern the host does not map. -/
  | other
deriving Repr

namespace HostPattern

/-- The pattern `null`. -/
def null : HostPattern := .constant .null

/-- The positional pattern `ty(p₀, …, pₙ)`. -/
def positional (ty : TypeId) (subs : List HostPattern) : HostPattern :=
  .record (some ty) (some subs) none none

/-- The property pattern `ty { f₀: p₀, …, fₙ: pₙ }`. -/
def property (ty : TypeId) (props : List (String × HostPattern)) : HostPattern :=
  .record (some ty) none (some props) none

end HostPattern

/-- One arm of a match as the host reports it. -/
structure HostArm where
  /-- The arm's pattern. -/
  pattern : HostPattern
  /-- The arm carries a guard, so it may decline a value its pattern matches. -/
  guarded : Bool := false
  /-- Where the arm stands in the source. -/
  span : Span := Span.dummy
deriving Repr

end MatchCoverage
