import MatchCoverage.Pattern.Classify

/-!
# A context that remembers the host's answers

A proof asks the host for the same deconstruction many times: each positional pattern over one
variant with one number of sub-patterns asks again. A context therefore keeps the answers it has
received, in a `Memo`, each under the variant and the arity it was asked for, and answers a
repeated question from the memo without asking the host. What it records is the host's answer
after the length filter, so a recorded answer is the one the question gets from a fresh context.

A memo lives as long as one proof. It starts empty, and classification threads it through the
patterns in order: through the alternatives of an alternation, and through the arms of a match,
each arm classified at its position. `Context.classify` and `Context.classifyConstruct` are the
same classification with every question put to the host afresh.
-/

namespace MatchCoverage

/-- The deconstruction answers a context has received, each under the variant and the arity it
was asked for, the most recent first. -/
structure Memo where
  /-- The recorded answers. -/
  entries : List ((TypeId × Nat) × Option (List Field))

namespace Memo

/-- The memo of a context that has asked nothing yet. -/
def empty : Memo := ⟨[]⟩

/-- The answer recorded for a variant and an arity, if the question was asked before. -/
def find? (m : Memo) (v : TypeId) (arity : Nat) : Option (Option (List Field)) :=
  m.entries.lookup (v, arity)

/-- Records the answer to a question about a variant and an arity. -/
def record (m : Memo) (v : TypeId) (arity : Nat) (answer : Option (List Field)) : Memo :=
  ⟨((v, arity), answer) :: m.entries⟩

end Memo

namespace Context

/-- The fields a positional pattern with `arity` sub-patterns binds over the variant `v`: the
recorded answer if the question was asked before; otherwise the host's answer, refused unless it
has exactly `arity` fields, which is recorded. -/
def deconstructionMemo (c : Context) (m : Memo) (v : TypeId) (arity : Nat) :
    Option (List Field) × Memo :=
  match m.find? v arity with
  | some answer => (answer, m)
  | none =>
    let answer := c.deconstruction v arity
    (answer, m.record v arity answer)

/-- Classifies a recursive pattern from its parts, asking deconstructions through the memo. -/
def classifyRecordMemo (c : Context) (m : Memo) (ty : Option TypeId)
    (positional : Option (List HostPattern)) (properties : Option (List (String × HostPattern))) :
    Pattern × Memo :=
  match ty.bind c.variantOf? with
  | none => (.unprovable, m)
  | some v =>
    match positional, properties with
    | none, none => (.variantTest v, m)
    | some _, some _ => (.unprovable, m)
    | some subs, none =>
      let asked := c.deconstructionMemo m v subs.length
      match asked.1 with
      | none => (.unprovable, asked.2)
      | some fields =>
        (.positional v (List.zipWith (fun s f => Pattern.ofField f s) subs fields), asked.2)
    | none, some props =>
      (.propertyTest v (props.map fun (name, p) => (name, Pattern.ofUnanchored p)), m)

mutual

/-- Classifies the pattern of an arm, asking deconstructions through the memo. -/
def classifyMemo (c : Context) : HostPattern → Memo → Pattern × Memo
  | .discard, m | .binding _, m => (.wildcard, m)
  | .constant .null, m => (.nullLiteral, m)
  | .constant _, m | .relational _ _, m => (.refinement, m)
  | .typeTest t, m | .declaration t _, m =>
    match c.variantOf? t with
    | some v => (.variantTest v, m)
    | none => (.unprovable, m)
  | .record ty positional properties _, m => c.classifyRecordMemo m ty positional properties
  | .anyOf alts, m =>
    let classified := c.classifyAllMemo alts m
    (.anyOf classified.1, classified.2)
  | .allOf _, m | .negation _, m | .list _, m | .other, m => (.unprovable, m)

/-- Classifies alternatives in order, threading the memo through them. -/
def classifyAllMemo (c : Context) : List HostPattern → Memo → List Pattern × Memo
  | [], m => ([], m)
  | p :: ps, m =>
    let first := c.classifyMemo p m
    let rest := c.classifyAllMemo ps first.2
    (first.1 :: rest.1, rest.2)

end

/-- Classifies arms in order from the position `index` on, threading the memo through them. -/
def classifyArmsMemo (c : Context) : Nat → List HostArm → Memo → List Arm × Memo
  | _, [], m => ([], m)
  | index, arm :: arms, m =>
    let first := c.classifyMemo arm.pattern m
    let rest := c.classifyArmsMemo (index + 1) arms first.2
    (⟨first.1, arm.guarded, index, arm.span⟩ :: rest.1, rest.2)

/-- Classifies the arms of a match, each at its position, threading the memo through them. -/
def classifyConstructMemo (c : Context) (nullable : Bool) (arms : List HostArm) (m : Memo) :
    MatchConstruct × Memo :=
  let classified := c.classifyArmsMemo 0 arms m
  (⟨nullable, classified.1⟩, classified.2)

end Context

end MatchCoverage
