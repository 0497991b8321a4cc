import MatchCoverage.TypeId

/-!
# Closed unions

A `ClosedUnion` is what an analysis knows about the subject type of a match: its own type, its
name, and its variants in declaration order. Each variant is identified by its declared type, and
no type is listed twice: the identities are distinct by construction of the type, so that "the
variants not yet handled" is a set and its size is a count of variants.

`ClosedUnion.ofVariants` builds a union from any list of variants by keeping the first entry of
each identity, so that the order of first appearance is the declaration order.

A `Field` is one position of a positional deconstruction: where it stands and what type it is
declared to hold.
-/

namespace MatchCoverage

/-- A variant of a closed union: its identity and its name. -/
structure Variant where
  /-- The variant's declared type. -/
  id : TypeId
  /-- The variant's name. -/
  name : String
deriving DecidableEq, Repr

namespace Variant

/-- Keeps the first variant of each identity not in `seen`, in order. -/
def keepFirst (seen : List TypeId) : List Variant → List Variant
  | [] => []
  | v :: vs => if v.id ∈ seen then keepFirst seen vs else v :: keepFirst (v.id :: seen) vs

theorem not_mem_of_mem_keepFirst (seen : List TypeId) (vs : List Variant) :
    ∀ x ∈ (keepFirst seen vs).map (·.id), x ∉ seen := by
  induction vs generalizing seen with
  | nil => simp [keepFirst]
  | cons v vs ih =>
    by_cases h : v.id ∈ seen
    · simpa [keepFirst, h] using ih seen
    · intro x hx
      simp only [keepFirst, h, if_false, List.map_cons, List.mem_cons] at hx
      rcases hx with rfl | hx
      · exact h
      · exact fun hs => ih (v.id :: seen) x hx (List.mem_cons_of_mem _ hs)

theorem nodup_keepFirst (seen : List TypeId) (vs : List Variant) :
    ((keepFirst seen vs).map (·.id)).Nodup := by
  induction vs generalizing seen with
  | nil => simp [keepFirst]
  | cons v vs ih =>
    by_cases h : v.id ∈ seen
    · simpa [keepFirst, h] using ih seen
    · simp only [keepFirst, h, if_false, List.map_cons, List.nodup_cons]
      exact ⟨fun hm => not_mem_of_mem_keepFirst (v.id :: seen) vs v.id hm (List.mem_cons_self),
        ih (v.id :: seen)⟩

/-- A list whose identities are distinct and none of them seen keeps every entry. -/
theorem keepFirst_eq_self (seen : List TypeId) (vs : List Variant) (nodup : (vs.map (·.id)).Nodup)
    (unseen : ∀ v ∈ vs, v.id ∉ seen) : keepFirst seen vs = vs := by
  induction vs generalizing seen with
  | nil => rfl
  | cons v vs ih =>
    rw [List.map_cons, List.nodup_cons, List.mem_map] at nodup
    have fresh : v.id ∉ seen := unseen v List.mem_cons_self
    rw [keepFirst, if_neg fresh, ih (v.id :: seen) nodup.2]
    intro w hw listed
    rcases List.mem_cons.mp listed with same | earlier
    · exact nodup.1 ⟨w, hw, same⟩
    · exact unseen w (List.mem_cons_of_mem v hw) earlier

end Variant

/-- The subject type of a match: a union whose variants are listed once each, in declaration
order. -/
structure ClosedUnion where
  /-- The union's declared type. -/
  ty : TypeId
  /-- The union's name. -/
  name : String
  /-- The variants, in declaration order. -/
  variants : List Variant
  /-- No identity is listed twice. -/
  nodup : (variants.map (·.id)).Nodup

namespace ClosedUnion

/-- The union of the given variants, keeping the first entry of each identity. -/
def ofVariants (ty : TypeId) (name : String) (vs : List Variant) : ClosedUnion :=
  ⟨ty, name, Variant.keepFirst [] vs, Variant.nodup_keepFirst [] vs⟩

/-- The identities of the variants, in declaration order. -/
def ids (u : ClosedUnion) : List TypeId :=
  u.variants.map (·.id)

/-- The number of variants. -/
def size (u : ClosedUnion) : Nat :=
  u.variants.length

/-- A union without variants. -/
def isEmpty (u : ClosedUnion) : Bool :=
  u.variants.isEmpty

/-- The union lists `t` among its variants. -/
def contains (u : ClosedUnion) (t : TypeId) : Bool :=
  u.variants.any (·.id == t)

/-- The name of the variant `t`, if the union lists it. -/
def variantName? (u : ClosedUnion) (t : TypeId) : Option String :=
  (u.variants.find? (·.id == t)).map (·.name)

example : (ofVariants ⟨16⟩ "U" [⟨⟨17⟩, "A"⟩, ⟨⟨17⟩, "B"⟩]).variantName? ⟨17⟩ = some "A" := by decide

end ClosedUnion

/-- One position of a positional deconstruction and the type it is declared to hold. -/
structure Field where
  /-- The position, counted from zero. -/
  position : Nat
  /-- The declared type of the value at that position. -/
  ty : TypeId
deriving DecidableEq, Repr

namespace Field

/-- The fields of a deconstruction that binds values of the given types, at positions counted
from `start`. -/
def ofTypes (start : Nat) : List TypeId → List Field
  | [] => []
  | t :: ts => ⟨start, t⟩ :: ofTypes (start + 1) ts

end Field

end MatchCoverage
