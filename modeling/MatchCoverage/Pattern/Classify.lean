import MatchCoverage.Host
import MatchCoverage.Pattern.Basic

/-!
# Classification

Classification maps the host's pattern trees into the classified shapes, against one closed union:
the subject type of the match. A `Context` is that union and the host to ask about
deconstructions; it lives for one proof. Its answers are exactly the host's, with a deconstruction
of the wrong length refused, so asking twice gives the same answer and nothing needs to be kept
between questions.

Three rules classify a tree, by where it stands:

* at the top of an arm (`Context.classify`), a type test or declaration names a variant exactly
  when the union lists that type; a recursive pattern must name a listed variant, and may carry a
  positional list or a property list but not both; its positional sub-patterns are classified by
  the field rule against the deconstruction of their length, and its property sub-patterns by the
  unanchored rule;
* as a positional sub-pattern (`Pattern.ofField`), a test for exactly the field's declared type
  matches the whole field, so it is a wildcard; every constant, `null` included, is a refinement;
* as a property sub-pattern (`Pattern.ofUnanchored`), no declared type is known, so a type test
  proves nothing.

Everywhere, discards and bindings are wildcards, an alternation is classified alternative by
alternative, and `and`, `not`, list patterns and unmapped patterns are unprovable.
-/

namespace MatchCoverage

/-- What one proof knows: the union under analysis and the host to ask about deconstructions. -/
structure Context where
  /-- The host that answers questions about deconstructions. -/
  host : Host
  /-- The closed union of the subject. -/
  union : ClosedUnion

namespace Context

/-- The variant a type test names: the type itself when the union lists it. The union's own type
is not a variant unless it is listed as one. -/
def variantOf? (c : Context) (t : TypeId) : Option TypeId :=
  if c.union.contains t then some t else none

/-- The fields a positional pattern with `arity` sub-patterns binds over the variant `v`: the
host's answer, refused unless it has exactly `arity` fields. -/
def deconstruction (c : Context) (v : TypeId) (arity : Nat) : Option (List Field) :=
  (c.host.deconstruction v arity).filter (·.length == arity)

end Context

namespace Pattern

mutual

/-- Classifies a positional sub-pattern against the field it deconstructs. -/
def ofField (f : Field) : HostPattern → Pattern
  | .discard | .binding _ => .wildcard
  | .typeTest t | .declaration t _ => if t = f.ty then .wildcard else .unprovable
  | .constant _ | .relational _ _ => .refinement
  | .anyOf alts => .anyOf (ofFieldAll f alts)
  | .record _ _ _ _ | .allOf _ | .negation _ | .list _ | .other => .unprovable

/-- Classifies alternatives of a positional sub-pattern against the same field. -/
def ofFieldAll (f : Field) : List HostPattern → List Pattern
  | [] => []
  | p :: ps => ofField f p :: ofFieldAll f ps

end

mutual

/-- Classifies a property sub-pattern, whose field type is not known. -/
def ofUnanchored : HostPattern → Pattern
  | .discard | .binding _ => .wildcard
  | .constant _ | .relational _ _ => .refinement
  | .anyOf alts => .anyOf (ofUnanchoredAll alts)
  | .typeTest _ | .declaration _ _ | .record _ _ _ _ | .allOf _ | .negation _ | .list _
  | .other => .unprovable

/-- Classifies alternatives of a property sub-pattern. -/
def ofUnanchoredAll : List HostPattern → List Pattern
  | [] => []
  | p :: ps => ofUnanchored p :: ofUnanchoredAll ps

end

end Pattern

namespace Context

/-- Classifies a recursive pattern from its parts: the type, the positional list and the property
list. -/
def classifyRecord (c : Context) (ty : Option TypeId) (positional : Option (List HostPattern))
    (properties : Option (List (String × HostPattern))) : Pattern :=
  match ty.bind c.variantOf? with
  | none => .unprovable
  | some v =>
    match positional, properties with
    | none, none => .variantTest v
    | some _, some _ => .unprovable
    | some subs, none =>
      match c.deconstruction v subs.length with
      | none => .unprovable
      | some fields => .positional v (List.zipWith (fun s f => Pattern.ofField f s) subs fields)
    | none, some props => .propertyTest v (props.map fun (name, p) => (name, Pattern.ofUnanchored p))

mutual

/-- Classifies the pattern of an arm. -/
def classify (c : Context) : HostPattern → Pattern
  | .discard | .binding _ => .wildcard
  | .constant .null => .nullLiteral
  | .constant _ | .relational _ _ => .refinement
  | .typeTest t | .declaration t _ =>
    match c.variantOf? t with
    | some v => .variantTest v
    | none => .unprovable
  | .record ty positional properties _ => c.classifyRecord ty positional properties
  | .anyOf alts => .anyOf (c.classifyAll alts)
  | .allOf _ | .negation _ | .list _ | .other => .unprovable

/-- Classifies the alternatives of an arm's pattern. -/
def classifyAll (c : Context) : List HostPattern → List Pattern
  | [] => []
  | p :: ps => c.classify p :: c.classifyAll ps

end

/-- Classifies an arm at a position of its match. -/
def classifyArm (c : Context) (index : Nat) (arm : HostArm) : Arm :=
  ⟨c.classify arm.pattern, arm.guarded, index, arm.span⟩

/-- Classifies the arms of a match, each at its position. -/
def classifyConstruct (c : Context) (nullable : Bool) (arms : List HostArm) : MatchConstruct :=
  ⟨nullable, arms.mapIdx c.classifyArm⟩

end Context

end MatchCoverage
