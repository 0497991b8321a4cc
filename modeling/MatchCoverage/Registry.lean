import Std.Data.HashMap
import MatchCoverage.Decl
import MatchCoverage.Host

/-!
# The registry of union declarations

A `Registry` is a host built from union declarations. It keeps three tables, written as each
declaration is accepted: the closed union of each registered union type, the union that owns each
registered variant, and the deconstructions each registered variant offers, as field lists with
each field at its position. Every question is answered from these tables alone.

Registration is atomic: a declaration is checked against the tables before anything is written,
and accepted whole or refused whole. It is refused when its union is already registered; otherwise
its variants are checked in declaration order, and the first that lists the union itself, repeats
an earlier variant of the same declaration, or already belongs to a registered union is the
reason. An accepted declaration writes each variant's owner and deconstructions, in order, and
then its union.

A type resolves to a union when the union table has it with a variant. A registered union without
variants, a variant that is not itself a union, and a type the registry has never seen each fail
with their own reason.

Nothing in the type says that the three tables agree with one another or with the declarations
registered; that they do after every run is proved of the registry's runs.

A caller may go on registering after a refusal; `registerEach` is such a run, answering the
outcome of every call.
-/

namespace MatchCoverage

/-- Why a declaration was refused. -/
inductive RegisterError where
  /-- The union is already registered. -/
  | duplicateUnion (u : TypeId)
  /-- The declaration of `u` lists the variant `v` twice. -/
  | duplicateVariant (u v : TypeId)
  /-- The variant `v` already belongs to the registered union `owner`. -/
  | variantOwned (v owner : TypeId)
  /-- The union lists itself as one of its variants. -/
  | selfVariant (u : TypeId)
deriving DecidableEq, Repr

/-- The message of a refusal. -/
def RegisterError.message : RegisterError → String
  | .duplicateUnion u => "union " ++ u.render ++ " is already registered"
  | .duplicateVariant u v => "variant " ++ v.render ++ " is declared twice in union " ++ u.render
  | .variantOwned v o => "variant " ++ v.render ++ " already belongs to union " ++ o.render
  | .selfVariant u => "union " ++ u.render ++ " lists itself as a variant"

/-- The tables of the accepted union declarations. -/
structure Registry where
  /-- The closed union of each registered union type. -/
  unions : Std.HashMap TypeId ClosedUnion
  /-- The union each registered variant belongs to. -/
  owners : Std.HashMap TypeId TypeId
  /-- The deconstructions each registered variant offers, in declaration order. -/
  deconstructors : Std.HashMap TypeId (List (List Field))

namespace Registry

/-- The registry that holds no declaration. -/
def empty : Registry := ⟨∅, ∅, ∅⟩

/-- The number of registered unions. -/
def size (r : Registry) : Nat :=
  r.unions.size

/-- No union is registered. -/
def isEmpty (r : Registry) : Bool :=
  r.unions.isEmpty

/-- A union of type `t` is registered. -/
def containsUnion (r : Registry) (t : TypeId) : Bool :=
  r.unions.contains t

/-- The registered union that `v` belongs to. -/
def ownerOf? (r : Registry) (v : TypeId) : Option TypeId :=
  r.owners[v]?

/-- Checks the variants of a declaration of `u` in order; `seen` holds the variants already
checked. -/
def checkVariants (r : Registry) (u : TypeId) : List TypeId → List VariantDecl → Except RegisterError Unit
  | _, [] => .ok ()
  | seen, v :: vs =>
    if v.ty = u then .error (.selfVariant u)
    else if v.ty ∈ seen then .error (.duplicateVariant u v.ty)
    else match r.ownerOf? v.ty with
      | some owner => .error (.variantOwned v.ty owner)
      | none => r.checkVariants u (v.ty :: seen) vs

/-- Checks a declaration against the registry without recording anything. -/
def check (r : Registry) (d : UnionDecl) : Except RegisterError Unit :=
  if r.containsUnion d.ty then .error (.duplicateUnion d.ty)
  else r.checkVariants d.ty [] d.variants

/-- The closed union a declaration describes, each variant named once. -/
def unionOf (d : UnionDecl) : ClosedUnion :=
  ClosedUnion.ofVariants d.ty d.name (d.variants.map fun v => ⟨v.ty, v.name⟩)

/-- Writes one variant of the union `u`: its owner, and its deconstructions with each field at its
position. -/
def recordVariant (u : TypeId) (r : Registry) (v : VariantDecl) : Registry :=
  { r with
    owners := r.owners.insert v.ty u
    deconstructors := r.deconstructors.insert v.ty (v.deconstructors.map (Field.ofTypes 0)) }

@[simp] theorem unions_recordVariant (u : TypeId) (r : Registry) (v : VariantDecl) :
    (recordVariant u r v).unions = r.unions := rfl

@[simp] theorem owners_recordVariant (u : TypeId) (r : Registry) (v : VariantDecl) :
    (recordVariant u r v).owners = r.owners.insert v.ty u := rfl

@[simp] theorem deconstructors_recordVariant (u : TypeId) (r : Registry) (v : VariantDecl) :
    (recordVariant u r v).deconstructors =
      r.deconstructors.insert v.ty (v.deconstructors.map (Field.ofTypes 0)) := rfl

/-- Writes an accepted declaration: its variants in declaration order, then its union. -/
def record (r : Registry) (d : UnionDecl) : Registry :=
  let written := d.variants.foldl (recordVariant d.ty) r
  { written with unions := written.unions.insert d.ty (unionOf d) }

/-- Accepts a declaration and writes it, or refuses it and writes nothing. -/
def register (r : Registry) (d : UnionDecl) : Except RegisterError Registry :=
  match r.check d with
  | .ok () => .ok (r.record d)
  | .error e => .error e

/-- Registration succeeds exactly when the check does, and then writes the declaration. -/
theorem register_eq_ok_iff (r r' : Registry) (d : UnionDecl) :
    r.register d = .ok r' ↔ r.check d = .ok () ∧ r' = r.record d := by
  unfold register
  split
  · next h => simp [h, eq_comm]
  · next e h => simp [h]

/-- Registration fails exactly when the check does, with the check's reason. -/
theorem register_eq_error_iff (r : Registry) (d : UnionDecl) (e : RegisterError) :
    r.register d = .error e ↔ r.check d = .error e := by
  unfold register
  split
  · next h => simp [h]
  · next e' h => simp [h]

/-- Registers the declarations in order, stopping at the first that is refused. -/
def ofDecls (ds : List UnionDecl) : Except RegisterError Registry :=
  ds.foldlM register empty

/-- Registers the declarations in turn, going on past a refused one, which records nothing;
answers the outcome of each registration, in order, and the registry at the end. -/
def registerEach (r : Registry) : List UnionDecl → List (Except RegisterError Unit) × Registry
  | [] => ([], r)
  | d :: ds =>
    match r.register d with
    | .ok r' => let rest := r'.registerEach ds; (.ok () :: rest.1, rest.2)
    | .error e => let rest := r.registerEach ds; (.error e :: rest.1, rest.2)

/-- The closed union of type `t`, or why there is none. -/
def resolve (r : Registry) (t : TypeId) : Except ResolveError ClosedUnion :=
  match r.unions[t]? with
  | some u => if u.isEmpty then .error (.noVariants t) else .ok u
  | none => if r.owners.contains t then .error (.notAUnion t) else .error (.unknownType t)

/-- The fields bound by the first deconstruction of `v` with exactly `arity` fields. -/
def deconstruction (r : Registry) (v : TypeId) (arity : Nat) : Option (List Field) :=
  r.deconstructors[v]?.bind fun overloads => overloads.find? (·.length == arity)

/-- The registry as a host. -/
def host (r : Registry) : Host :=
  ⟨r.resolve, r.deconstruction⟩

end Registry

end MatchCoverage
