import Mathlib.Data.Finset.Card
import MatchCoverage.Proofs.Semilattice

/-!
# A union lists each variant once, and the prover's counts agree because of it

`ClosedUnion.ofVariants` builds a union from any list of variants, repeats included, by keeping
the first entry of each identity. Read against its input: the identities it keeps are the input's
in order of first appearance (`List.eraseDups`), and the entry it keeps for an identity is the
input's first one. So it lists an identity exactly when the input does, names it as its first
occurrence does, and has as many variants as the input has distinct identities.

A prover keeps the unresolved variants as a sublist of its union's. Because the union lists each
identity once, two readings of "what is unresolved" agree: the union's variants, in declaration
order, whose identity is among the unresolved ones are exactly the unresolved list
(`unresolved_eq_filter_mem`), and the length of that list is the number of distinct unresolved
identities (`remaining_eq_card`). The count of remaining variants and the list a report carries
are therefore one number and one set, after any run.

**The law** (`ofVariants_keeps_first_occurrences`).
-/

namespace MatchCoverage

namespace Variant

/-- The identities kept are those of the input not yet seen, each at its first appearance. -/
theorem ids_keepFirst (seen : List TypeId) (vs : List Variant) :
    (keepFirst seen vs).map (·.id) = ((vs.map (·.id)).filter (· ∉ seen)).eraseDups := by
  induction vs generalizing seen with
  | nil => rfl
  | cons v vs ih =>
    by_cases h : v.id ∈ seen
    · rw [keepFirst, if_pos h, ih, List.map_cons, List.filter_cons_of_neg (by simpa using h)]
    · rw [keepFirst, if_neg h, List.map_cons, ih, List.map_cons,
        List.filter_cons_of_pos (by simpa using h), List.eraseDups_cons, List.filter_filter]
      -- once `v.id` is seen, it is dropped from the rest: the same filter, in either order
      congr 3
      funext t
      by_cases same : t = v.id <;> simp [same]

/-- For an identity not seen, the entry kept is the input's first entry of that identity. -/
theorem find?_keepFirst (seen : List TypeId) (vs : List Variant) {t : TypeId} (unseen : t ∉ seen) :
    (keepFirst seen vs).find? (·.id == t) = vs.find? (·.id == t) := by
  induction vs generalizing seen with
  | nil => rfl
  | cons v vs ih =>
    by_cases h : v.id ∈ seen
    · have other : v.id ≠ t := fun same => unseen (same ▸ h)
      rw [keepFirst, if_pos h, ih seen unseen, List.find?_cons_of_neg (by simpa using other)]
    · rw [keepFirst, if_neg h]
      by_cases same : v.id = t
      · rw [List.find?_cons_of_pos (by simp [same]), List.find?_cons_of_pos (by simp [same])]
      · have still_unseen : t ∉ v.id :: seen := by simp [unseen, Ne.symm same]
        rw [List.find?_cons_of_neg (by simpa using same), List.find?_cons_of_neg (by simpa using same),
          ih (v.id :: seen) still_unseen]

end Variant

namespace ClosedUnion

section OfVariants

variable (ty : TypeId) (name : String) (vs : List Variant)

theorem ids_ofVariants : (ofVariants ty name vs).ids = (vs.map (·.id)).eraseDups := by
  have kept := Variant.ids_keepFirst [] vs
  rwa [List.filter_eq_self.mpr (fun _ _ => by simp)] at kept

theorem find?_ofVariants (t : TypeId) :
    (ofVariants ty name vs).variants.find? (·.id == t) = vs.find? (·.id == t) :=
  Variant.find?_keepFirst [] vs List.not_mem_nil

theorem mem_ids_ofVariants (t : TypeId) : t ∈ (ofVariants ty name vs).ids ↔ t ∈ vs.map (·.id) := by
  rw [ids_ofVariants, List.mem_eraseDups]

end OfVariants

theorem contains_iff_mem_ids (u : ClosedUnion) (t : TypeId) : u.contains t = true ↔ t ∈ u.ids := by
  simp [contains, ids]

/-- A union has as many variants as it has distinct identities. -/
theorem size_eq_card_ids (u : ClosedUnion) : u.size = u.ids.toFinset.card := by
  rw [size, ids, List.toFinset_card_of_nodup u.nodup, List.length_map]

end ClosedUnion

/-- Among variants listed once each, those whose identity a sublist lists are that sublist. -/
theorem filter_mem_ids_of_sublist {l vs : List Variant} (sub : l.Sublist vs)
    (nodup : (vs.map (·.id)).Nodup) : vs.filter (fun w => w.id ∈ l.map (·.id)) = l := by
  induction sub with
  | slnil => rfl
  | cons v sub ih =>
    rw [List.map_cons, List.nodup_cons] at nodup
    have absent : v.id ∉ _ := fun listed => nodup.1 ((sub.map _).subset listed)
    rw [List.filter_cons_of_neg (by simpa using absent), ih nodup.2]
  | cons_cons v sub ih =>
    rw [List.map_cons, List.nodup_cons] at nodup
    rw [List.filter_cons_of_pos (by simp)]
    congr 1
    refine (List.filter_congr fun w hw => ?_).trans (ih nodup.2)
    -- no later variant shares `v`'s identity
    have other : w.id ≠ v.id := fun same => nodup.1 (same ▸ List.mem_map_of_mem hw)
    simp [other]

namespace Prover

/-- No identity is unresolved twice. -/
theorem nodup_unresolved_ids (p : Prover) : (p.unresolved.map (·.id)).Nodup :=
  (p.sublist.map _).nodup p.union.nodup

/-- The unresolved list is the union's variants, in declaration order, whose identity is
unresolved. -/
theorem unresolved_eq_filter_mem (p : Prover) :
    p.unresolved = p.union.variants.filter (fun w => w.id ∈ p.unresolved.map (·.id)) :=
  (filter_mem_ids_of_sublist p.sublist p.union.nodup).symm

/-- The number of remaining variants is the number of distinct unresolved identities. -/
theorem remaining_eq_card (p : Prover) : p.remaining = (p.unresolved.map (·.id)).toFinset.card := by
  rw [List.toFinset_card_of_nodup p.nodup_unresolved_ids, List.length_map, remaining]

theorem union_run (u : ClosedUnion) (steps : List Step) : (run u steps).union = u :=
  (reflects_run u steps).union_eq

end Prover

/-- **A union keeps the first occurrence of each variant, and the prover's two counts agree.** For
any list of variants, repeats included, the union built from it lists the input's identities in
order of first appearance, once each; the entry it keeps for an identity is the input's first, so
it lists an identity exactly when the input does and names it as the first occurrence does; and it
has as many variants as the input has distinct identities. After any run of steps on a prover over
that union, the report lists no identity twice and only variants of the union, lists exactly the
union's variants whose identity is unresolved, and its length is the count of remaining variants,
which is the number of distinct unresolved identities. -/
theorem ofVariants_keeps_first_occurrences (ty : TypeId) (name : String) (vs : List Variant) :
    let u := ClosedUnion.ofVariants ty name vs
    u.ids = (vs.map (·.id)).eraseDups ∧
    u.ids.Nodup ∧
    (∀ t, u.variants.find? (·.id == t) = vs.find? (·.id == t)) ∧
    (∀ t, u.contains t = true ↔ t ∈ vs.map (·.id)) ∧
    (∀ t, u.variantName? t = (vs.find? (·.id == t)).map (·.name)) ∧
    u.size = (vs.map (·.id)).toFinset.card ∧
    ∀ (steps : List Step) (nullable : Bool),
      let p := Prover.run u steps
      (p.finish nullable).unresolvedIds.Nodup ∧
      (∀ w ∈ (p.finish nullable).unresolved, w ∈ u.variants) ∧
      (p.finish nullable).unresolved = u.variants.filter (fun w => w.id ∈ p.unresolved.map (·.id)) ∧
      (p.finish nullable).unresolved.length = p.remaining ∧
      p.remaining = (p.unresolved.map (·.id)).toFinset.card := by
  intro u
  have same_ids : u.ids.toFinset = (vs.map (·.id)).toFinset := by
    ext t
    rw [List.mem_toFinset, List.mem_toFinset, ClosedUnion.mem_ids_ofVariants]
  refine ⟨ClosedUnion.ids_ofVariants ty name vs, u.nodup, ClosedUnion.find?_ofVariants ty name vs,
    fun t => (u.contains_iff_mem_ids t).trans (ClosedUnion.mem_ids_ofVariants ty name vs t),
    fun t => by rw [ClosedUnion.variantName?, ClosedUnion.find?_ofVariants],
    by rw [u.size_eq_card_ids, same_ids], fun steps nullable => ?_⟩
  intro p
  have over_u : p.union = u := Prover.union_run u steps
  refine ⟨p.nodup_unresolved_ids, fun w hw => over_u ▸ p.sublist.subset hw, ?_, rfl,
    p.remaining_eq_card⟩
  rw [Prover.unresolved_finish, ← over_u]
  exact p.unresolved_eq_filter_mem

end MatchCoverage
