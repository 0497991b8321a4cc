import MatchCoverage.TypeId

/-!
# Declarations of closed unions

What the host declares about its types, before any analysis looks at them. A `UnionDecl` lists the
variants of one closed union; a `VariantDecl` gives one variant's named fields and its positional
*deconstructions*: each deconstruction is the list of field types that a positional pattern of that
length binds, and a variant may offer several, one per arity it supports.

A record variant's named fields are also a deconstruction of their own, in declaration order, so
that positional patterns over a record need no second declaration. A record without fields offers
no deconstruction from its fields.
-/

namespace MatchCoverage

/-- A named field of a variant, with its declared type. -/
structure FieldDecl where
  /-- The field's name. -/
  name : String
  /-- The field's declared type. -/
  ty : TypeId
deriving DecidableEq, Repr

/-- One variant of a closed union: its own declared type, its fields, and the deconstructions that
positional patterns over it may use, in the order they were declared. -/
structure VariantDecl where
  /-- The variant's name. -/
  name : String
  /-- The variant's declared type, which identifies it. -/
  ty : TypeId
  /-- The named fields. -/
  fields : List FieldDecl
  /-- The deconstructions, each the field types it binds, in declaration order. -/
  deconstructors : List (List TypeId)
deriving DecidableEq, Repr

namespace VariantDecl

/-- A variant with no deconstruction; positional patterns over it bind nothing. -/
def unit (name : String) (ty : TypeId) : VariantDecl :=
  ⟨name, ty, [], []⟩

/-- A record variant: its fields, in order, are also its first deconstruction, unless it has none. -/
def record (name : String) (ty : TypeId) (fields : List FieldDecl) : VariantDecl :=
  ⟨name, ty, fields, if fields.isEmpty then [] else [fields.map (·.ty)]⟩

/-- Adds a deconstruction after those already declared. -/
def withDeconstructor (v : VariantDecl) (types : List TypeId) : VariantDecl :=
  { v with deconstructors := v.deconstructors ++ [types] }

/-- The deconstruction that a positional pattern with `arity` sub-patterns uses: the first one
declared with exactly that many fields. -/
def deconstructor? (v : VariantDecl) (arity : Nat) : Option (List TypeId) :=
  v.deconstructors.find? (·.length == arity)

example : ((record "P" ⟨17⟩ [⟨"x", ⟨0⟩⟩]).withDeconstructor [⟨1⟩]).deconstructor? 1 = some [⟨0⟩] := by
  decide

end VariantDecl

/-- The declaration of a closed union: its own type and its variants, in declaration order. -/
structure UnionDecl where
  /-- The union's name. -/
  name : String
  /-- The union's declared type. -/
  ty : TypeId
  /-- The variants, in declaration order. -/
  variants : List VariantDecl
deriving DecidableEq, Repr

namespace UnionDecl

/-- A union with no variants yet. -/
def new (name : String) (ty : TypeId) : UnionDecl :=
  ⟨name, ty, []⟩

/-- Adds a variant after those already declared. -/
def withVariant (u : UnionDecl) (v : VariantDecl) : UnionDecl :=
  { u with variants := u.variants ++ [v] }

end UnionDecl

end MatchCoverage
