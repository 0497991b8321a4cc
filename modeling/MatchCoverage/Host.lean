import MatchCoverage.Union
import MatchCoverage.Pattern.Host

/-!
# What the analysis asks of its host

An analysis never reads the host's symbols or syntax. It asks two questions about types, bundled
as a `Host`: what closed union a type is, or why it is none; and which fields a positional pattern
of a given length over a variant binds. A `MatchSite` is a match as the host reports it: the
declared type of its subject, whether the subject may be `null`, and its arms in source order.
-/

namespace MatchCoverage

/-- Why the host cannot describe a type as a closed union. -/
inductive ResolveError where
  /-- The host knows no such type. -/
  | unknownType (t : TypeId)
  /-- The type is known, but it is not a closed union. -/
  | notAUnion (t : TypeId)
  /-- The type is a closed union without variants. -/
  | noVariants (t : TypeId)
deriving DecidableEq, Repr

/-- The message of a resolution failure. -/
def ResolveError.message : ResolveError → String
  | .unknownType t => "type " ++ t.render ++ " is not known to the host"
  | .notAUnion t => "type " ++ t.render ++ " is not a closed union"
  | .noVariants t => "union " ++ t.render ++ " exposes no variants"

/-- The two questions an analysis asks about the host's types. -/
structure Host where
  /-- The closed union a type is, or why it is none. -/
  resolve : TypeId → Except ResolveError ClosedUnion
  /-- The fields that a positional pattern with the given number of sub-patterns binds over a
  variant, if the variant offers a deconstruction of that length. -/
  deconstruction : TypeId → Nat → Option (List Field)

/-- A match as the host reports it. -/
structure MatchSite where
  /-- The declared type of the subject. -/
  subject : TypeId
  /-- The subject may be `null`. -/
  nullable : Bool
  /-- The arms, in source order. -/
  arms : List HostArm
deriving Repr

end MatchCoverage
