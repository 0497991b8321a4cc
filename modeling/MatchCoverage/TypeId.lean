/-!
# Declared types

A `TypeId` names one declared type of the host by a 32-bit number. Identity is exact: two ids are
equal exactly when they name the same declared type, and no subtyping is modelled. A variant of a
closed union is a declared type in its own right, so a variant is identified by its `TypeId`.

The host pre-assigns the ids below `16` to its primitive types; the first six of them have names.
-/

namespace MatchCoverage

/-- The identity of a declared type. -/
structure TypeId where
  /-- The number the host assigned. -/
  raw : UInt32
deriving DecidableEq, Repr, Hashable

namespace TypeId

/-- The first id the host allocates for types it declares; those below are primitive. -/
def firstUser : UInt32 := 16

/-- A primitive type is one of the ids the host pre-assigns. -/
def isPrimitive (t : TypeId) : Bool :=
  decide (t.raw < firstUser)

/-- The name of a pre-assigned primitive type: `int`, `float`, `bool`, `str`, `char`, and `object`,
the host's top type, for the ids `0` to `5`. -/
def primitiveName? (t : TypeId) : Option String :=
  match t.raw.toNat with
  | 0 => some "int"
  | 1 => some "float"
  | 2 => some "bool"
  | 3 => some "str"
  | 4 => some "char"
  | 5 => some "object"
  | _ => none

/-- The id written as a reference: a hash sign and the number. -/
def render (t : TypeId) : String :=
  "#" ++ toString t.raw

instance : ToString TypeId := ⟨render⟩

/-- The id as it is shown when inspected: the primitive's name where it has one, the number otherwise. -/
def inspect (t : TypeId) : String :=
  "TypeId(" ++ (t.primitiveName?.getD (toString t.raw)) ++ ")"

/-- The id written as a reference to a variant. -/
def variantRender (t : TypeId) : String :=
  "variant " ++ t.render

example : inspect ⟨5⟩ = "TypeId(object)" ∧ inspect ⟨16⟩ = "TypeId(16)" := by decide

end TypeId

end MatchCoverage
