import Mathlib.Data.List.Nodup
import Mathlib.Data.List.Pairwise
import MatchCoverage.Registry

/-!
# The registry answers from the declarations it accepted

A registry keeps three tables, and accepting a declaration writes to each of them. This module says
what the tables hold in terms of the declarations accepted so far, and from that what every query
answers.

A list of declarations is read through three first-match views: the declaration of a union type
(`unionIn?`), the union whose declaration lists a variant (`ownerIn?`), and the declaration of a
variant (`variantIn?`). `Registry.Holds r ds` says that each table of `r` is the view of `ds`, that
the union table has one entry per declaration, and that `ds` is well formed (`WellFormed`): its
unions are distinct, no union lists itself, and no variant type is listed twice, within one
declaration or across two.

The check that decides acceptance is read once (`check_eq_ok_iff`): a declaration is accepted
exactly when its union is not registered yet, none of its variants is the union itself or already
belongs to a registered union, and no variant is listed twice. Against a registry that holds `ds`
this says that the union's type and each variant's type are new keys, so writing the declaration
extends each table by exactly its view and the union table by one entry (`Holds.record`). The
empty registry holds no declaration (`holds_empty`), and after a run of registrations the registry
holds what it held, then the accepted declarations (`Holds.registerEach`).

Under `Holds` each query has one equation: which unions are registered (`Holds.containsUnion_iff`),
the owner of a variant (`Holds.ownerOf?_eq`), what a type resolves to (`Holds.resolve_eq`) and the
deconstructions of a variant (`Holds.deconstruction_eq`). In a well-formed list each view finds
the declaration that lists what it looks for (`WellFormed.unionIn?_ty` and its two companions).

**The law** (`registry_refines_accepted`): after any run of registrations from the empty registry,
every query answers what the list of accepted declarations says: the count, which unions are
registered, the owner of each variant, the union a type resolves to or the reason it resolves to
none, and the deconstructions of each variant; and that list has distinct unions, no union listing
itself, and no variant listed twice.
-/

namespace MatchCoverage

namespace Field

/-- The fields of a deconstruction are its types, each at its position counted from `start`. -/
theorem ofTypes_eq_mapIdx (start : Nat) (types : List TypeId) :
    ofTypes start types = types.mapIdx fun i t => ⟨start + i, t⟩ := by
  induction types generalizing start with
  | nil => rfl
  | cons t ts ih =>
    rw [ofTypes, ih, List.mapIdx_cons, Nat.add_zero]
    congr 2
    funext i t
    congr 1
    omega

@[simp] theorem length_ofTypes (start : Nat) (types : List TypeId) :
    (ofTypes start types).length = types.length := by
  induction types generalizing start with
  | nil => rfl
  | cons t ts ih => simp [ofTypes, ih]

end Field

namespace Registry

/-! ### Views of a list of declarations -/

/-- The declaration of the union `t` among `ds`, the first if there are several. -/
def unionIn? (ds : List UnionDecl) (t : TypeId) : Option UnionDecl :=
  ds.find? (·.ty == t)

/-- The union among `ds` whose declaration lists the variant `v`, the first if there are several. -/
def ownerIn? (ds : List UnionDecl) (v : TypeId) : Option TypeId :=
  (ds.find? fun d => d.variants.any (·.ty == v)).map (·.ty)

/-- The declaration of the variant `v` among `ds`, from the first union that lists it. -/
def variantIn? (ds : List UnionDecl) (v : TypeId) : Option VariantDecl :=
  ds.findSome? fun d => d.variants.find? (·.ty == v)

theorem unionIn?_eq_none_iff (ds : List UnionDecl) (t : TypeId) :
    unionIn? ds t = none ↔ ∀ d ∈ ds, d.ty ≠ t := by
  simp [unionIn?]

theorem ownerIn?_eq_none_iff (ds : List UnionDecl) (t : TypeId) :
    ownerIn? ds t = none ↔ ∀ d ∈ ds, ∀ v ∈ d.variants, v.ty ≠ t := by
  simp [ownerIn?]

theorem variantIn?_eq_none_iff (ds : List UnionDecl) (t : TypeId) :
    variantIn? ds t = none ↔ ∀ d ∈ ds, ∀ v ∈ d.variants, v.ty ≠ t := by
  simp [variantIn?, List.findSome?_eq_none_iff]

/-- A list declares a variant exactly when it gives the variant an owner. -/
theorem variantIn?_eq_none_iff_ownerIn? (ds : List UnionDecl) (t : TypeId) :
    variantIn? ds t = none ↔ ownerIn? ds t = none := by
  rw [variantIn?_eq_none_iff, ownerIn?_eq_none_iff]

/-- Appending the declaration of a new union adds it to the view of unions. -/
theorem unionIn?_append_of_fresh {ds : List UnionDecl} {d : UnionDecl}
    (fresh : unionIn? ds d.ty = none) (t : TypeId) :
    unionIn? (ds ++ [d]) t = if d.ty = t then some d else unionIn? ds t := by
  rw [unionIn?, List.find?_append]
  by_cases same : d.ty = t
  · subst same
    rw [unionIn?] at fresh
    simp [fresh]
  · simp [same, unionIn?]

/-- Appending a declaration whose variants no listed union owns makes it their owner. -/
theorem ownerIn?_append_of_fresh {ds : List UnionDecl} {d : UnionDecl}
    (fresh : ∀ v ∈ d.variants, ownerIn? ds v.ty = none) (t : TypeId) :
    ownerIn? (ds ++ [d]) t = if d.variants.any (·.ty == t) then some d.ty else ownerIn? ds t := by
  rw [ownerIn?, List.find?_append, Option.map_or]
  split
  · next listed =>
    obtain ⟨v, hv, same⟩ := List.any_eq_true.mp listed
    have unowned := fresh v hv
    rw [beq_iff_eq.mp same, ownerIn?] at unowned
    simp [unowned, listed]
  · next unlisted => simp [unlisted, ownerIn?]

theorem variantIn?_append (ds : List UnionDecl) (d : UnionDecl) (t : TypeId) :
    variantIn? (ds ++ [d]) t = (variantIn? ds t).or (d.variants.find? (·.ty == t)) := by
  simp [variantIn?, List.findSome?_append]

/-! ### Well-formed lists -/

/-- What a list of accepted declarations satisfies: its unions are distinct, no union lists itself,
and no variant type is listed twice, within one declaration or across two. -/
structure WellFormed (ds : List UnionDecl) : Prop where
  unions_nodup : (ds.map (·.ty)).Nodup
  not_self : ∀ d ∈ ds, ∀ v ∈ d.variants, v.ty ≠ d.ty
  variants_nodup : (ds.flatMap fun d => d.variants.map (·.ty)).Nodup

theorem wellFormed_nil : WellFormed [] :=
  ⟨List.nodup_nil, fun _ h => absurd h List.not_mem_nil, List.nodup_nil⟩

/-- Appending the declaration of a new union keeps a list well formed when none of its variants is
the union itself or listed before, and none is listed twice. -/
theorem WellFormed.append {ds : List UnionDecl} {d : UnionDecl} (wf : WellFormed ds)
    (fresh : unionIn? ds d.ty = none)
    (each : ∀ v ∈ d.variants, v.ty ≠ d.ty ∧ ownerIn? ds v.ty = none)
    (nodup : (d.variants.map (·.ty)).Nodup) : WellFormed (ds ++ [d]) := by
  constructor
  · rw [List.map_append, List.nodup_append]
    refine ⟨wf.unions_nodup, List.nodup_singleton _, ?_⟩
    intro a ha b hd same
    obtain ⟨e, he, rfl⟩ := List.mem_map.mp ha
    rw [List.map_singleton, List.mem_singleton] at hd
    subst hd
    exact (unionIn?_eq_none_iff ds d.ty).mp fresh e he same
  · intro e he v hv
    rcases List.mem_append.mp he with old | new
    · exact wf.not_self e old v hv
    · rw [List.mem_singleton] at new
      subst new
      exact (each v hv).1
  · rw [List.flatMap_append, List.nodup_append, List.flatMap_singleton]
    refine ⟨wf.variants_nodup, nodup, ?_⟩
    -- a variant of the new declaration is listed by no earlier one
    intro a ha b hb same
    obtain ⟨e, he, ha⟩ := List.mem_flatMap.mp ha
    obtain ⟨w, hw, rfl⟩ := List.mem_map.mp ha
    obtain ⟨v, hv, rfl⟩ := List.mem_map.mp hb
    exact (ownerIn?_eq_none_iff ds v.ty).mp (each v hv).2 e he w hw same

section WellFormed

variable {ds : List UnionDecl} (wf : WellFormed ds)
include wf

/-- In a well-formed list a variant type is listed by one declaration only, once. -/
theorem WellFormed.eq_of_same_ty {d e : UnionDecl} {v w : VariantDecl} (hd : d ∈ ds) (he : e ∈ ds)
    (hv : v ∈ d.variants) (hw : w ∈ e.variants) (same : v.ty = w.ty) : d = e ∧ v = w := by
  obtain ⟨each, apart⟩ := List.nodup_flatMap.mp wf.variants_nodup
  have : d = e := by
    by_contra differ
    have symm :
        Std.Symm (Function.onFun List.Disjoint fun d : UnionDecl => d.variants.map (·.ty)) :=
      ⟨fun _ _ apart _ mine theirs => apart theirs mine⟩
    exact apart.forall hd he differ (List.mem_map_of_mem hv) (same ▸ List.mem_map_of_mem hw)
  subst this
  exact ⟨rfl, List.inj_on_of_nodup_map (each d hd) hv hw same⟩

/-- A listed union is found by its type. -/
theorem WellFormed.unionIn?_ty {d : UnionDecl} (hd : d ∈ ds) : unionIn? ds d.ty = some d := by
  cases found : unionIn? ds d.ty with
  | none => exact absurd rfl ((unionIn?_eq_none_iff ds d.ty).mp found d hd)
  | some e =>
    have he := List.mem_of_find?_eq_some found
    have same : e.ty = d.ty := by simpa using List.find?_some found
    rw [List.inj_on_of_nodup_map wf.unions_nodup he hd same]

/-- The owner of a listed variant is the union whose declaration lists it. -/
theorem WellFormed.ownerIn?_ty {d : UnionDecl} {v : VariantDecl} (hd : d ∈ ds)
    (hv : v ∈ d.variants) : ownerIn? ds v.ty = some d.ty := by
  cases found : ds.find? fun e => e.variants.any (·.ty == v.ty) with
  | none =>
    have unowned : ownerIn? ds v.ty = none := by rw [ownerIn?, found]; rfl
    exact absurd rfl ((ownerIn?_eq_none_iff ds v.ty).mp unowned d hd v hv)
  | some e =>
    have he := List.mem_of_find?_eq_some found
    obtain ⟨w, hw, same⟩ := by simpa using List.find?_some found
    rw [ownerIn?, found, (wf.eq_of_same_ty hd he hv hw same.symm).1]
    rfl

/-- A listed variant is found with the declaration its union gave it. -/
theorem WellFormed.variantIn?_ty {d : UnionDecl} {v : VariantDecl} (hd : d ∈ ds)
    (hv : v ∈ d.variants) : variantIn? ds v.ty = some v := by
  cases found : variantIn? ds v.ty with
  | none => exact absurd rfl ((variantIn?_eq_none_iff ds v.ty).mp found d hd v hv)
  | some w =>
    obtain ⟨e, he, inE⟩ := List.exists_of_findSome?_eq_some found
    have hw := List.mem_of_find?_eq_some inE
    have same : w.ty = v.ty := by simpa using List.find?_some inE
    rw [(wf.eq_of_same_ty hd he hv hw same.symm).2]

end WellFormed

/-- A declaration whose variants are listed once each describes a union that keeps them all, in
declaration order. -/
theorem variants_unionOf {d : UnionDecl} (nodup : (d.variants.map (·.ty)).Nodup) :
    (unionOf d).variants = d.variants.map fun v => ⟨v.ty, v.name⟩ :=
  Variant.keepFirst_eq_self [] _ (by rwa [List.map_map]) (fun _ _ => List.not_mem_nil)

/-- The union a declaration describes has variants exactly when the declaration lists some. -/
theorem isEmpty_unionOf (d : UnionDecl) : (unionOf d).isEmpty = d.variants.isEmpty := by
  obtain ⟨name, ty, _ | ⟨v, vs⟩⟩ := d
  · rfl
  · simp [unionOf, ClosedUnion.ofVariants, ClosedUnion.isEmpty, Variant.keepFirst]

/-! ### Writing a declaration -/

theorem unions_foldl_recordVariant (u : TypeId) (vs : List VariantDecl) (r : Registry) :
    (vs.foldl (recordVariant u) r).unions = r.unions := by
  induction vs generalizing r with
  | nil => rfl
  | cons v vs ih => rw [List.foldl_cons, ih, unions_recordVariant]

/-- Writing the variants of `u` makes `u` the owner of each of them and of nothing else. -/
theorem owners_foldl_recordVariant (u : TypeId) (vs : List VariantDecl) (r : Registry)
    (t : TypeId) :
    (vs.foldl (recordVariant u) r).owners[t]? =
      if vs.any (·.ty == t) then some u else r.owners[t]? := by
  induction vs generalizing r with
  | nil => simp
  | cons v vs ih =>
    rw [List.foldl_cons, ih, owners_recordVariant, Std.HashMap.getElem?_insert]
    by_cases same : v.ty = t <;> simp [same]

/-- Writing variants listed once each records each one's deconstructions under its type. -/
theorem deconstructors_foldl_recordVariant (u : TypeId) {vs : List VariantDecl}
    (nodup : (vs.map (·.ty)).Nodup) (r : Registry) (t : TypeId) :
    (vs.foldl (recordVariant u) r).deconstructors[t]? =
      ((vs.find? (·.ty == t)).map fun v => v.deconstructors.map (Field.ofTypes 0)).or
        r.deconstructors[t]? := by
  induction vs generalizing r with
  | nil => simp
  | cons v vs ih =>
    rw [List.map_cons, List.nodup_cons] at nodup
    rw [List.foldl_cons, ih nodup.2, deconstructors_recordVariant, Std.HashMap.getElem?_insert]
    by_cases same : v.ty = t
    · -- `v` is listed once, so no later variant overwrites what it wrote
      have later : vs.find? (·.ty == t) = none := by
        rw [List.find?_eq_none]
        intro w hw listed
        have : w.ty = v.ty := by rw [same]; simpa using listed
        exact nodup.1 (this ▸ List.mem_map_of_mem hw)
      simp [same, later]
    · simp [same]

theorem unions_record (r : Registry) (d : UnionDecl) (t : TypeId) :
    (r.record d).unions[t]? = if d.ty = t then some (unionOf d) else r.unions[t]? := by
  simp [record, unions_foldl_recordVariant, Std.HashMap.getElem?_insert]

theorem size_record (r : Registry) (d : UnionDecl) :
    (r.record d).unions.size = if d.ty ∈ r.unions then r.unions.size else r.unions.size + 1 := by
  simp only [record, unions_foldl_recordVariant]
  exact Std.HashMap.size_insert

theorem owners_record (r : Registry) (d : UnionDecl) (t : TypeId) :
    (r.record d).owners[t]? = if d.variants.any (·.ty == t) then some d.ty else r.owners[t]? :=
  owners_foldl_recordVariant d.ty d.variants r t

theorem deconstructors_record (r : Registry) {d : UnionDecl} (nodup : (d.variants.map (·.ty)).Nodup)
    (t : TypeId) :
    (r.record d).deconstructors[t]? =
      ((d.variants.find? (·.ty == t)).map fun v => v.deconstructors.map (Field.ofTypes 0)).or
        r.deconstructors[t]? :=
  deconstructors_foldl_recordVariant d.ty nodup r t

/-! ### A registry that holds a list of declarations -/

/-- The registry `r` holds the declarations `ds`: `ds` is well formed, each table of `r` is the
view of `ds`, and the union table has one entry per declaration. -/
structure Holds (r : Registry) (ds : List UnionDecl) : Prop where
  wellFormed : WellFormed ds
  unions_eq : ∀ t, r.unions[t]? = (unionIn? ds t).map unionOf
  owners_eq : ∀ t, r.owners[t]? = ownerIn? ds t
  deconstructors_eq : ∀ t,
    r.deconstructors[t]? = (variantIn? ds t).map fun v => v.deconstructors.map (Field.ofTypes 0)
  size_eq : r.unions.size = ds.length

theorem holds_empty : empty.Holds [] where
  wellFormed := wellFormed_nil
  unions_eq _ := Std.HashMap.getElem?_empty
  owners_eq _ := Std.HashMap.getElem?_empty
  deconstructors_eq _ := Std.HashMap.getElem?_empty
  size_eq := Std.HashMap.size_empty

section Holds

variable {r : Registry} {ds : List UnionDecl} (h : r.Holds ds)
include h

theorem Holds.containsUnion_iff (t : TypeId) :
    r.containsUnion t = true ↔ ∃ d ∈ ds, d.ty = t := by
  rw [containsUnion, Std.HashMap.contains_eq_isSome_getElem?, h.unions_eq, Option.isSome_map]
  simp [unionIn?]

theorem Holds.ownerOf?_eq (t : TypeId) : r.ownerOf? t = ownerIn? ds t :=
  h.owners_eq t

/-- A type resolves to the union of its declaration, unless that declaration lists no variant;
a type no declaration declares resolves to `notAUnion` when one lists it as a variant and to
`unknownType` otherwise. -/
theorem Holds.resolve_eq (t : TypeId) :
    r.resolve t = match unionIn? ds t with
      | some d => if d.variants.isEmpty then .error (.noVariants t) else .ok (unionOf d)
      | none => if (ownerIn? ds t).isSome then .error (.notAUnion t) else .error (.unknownType t) := by
  rw [resolve, h.unions_eq, Std.HashMap.contains_eq_isSome_getElem?, h.owners_eq]
  cases unionIn? ds t with
  | some d => simp [isEmpty_unionOf]
  | none => rfl

/-- A variant deconstructs by the first overload of its declaration with the asked arity, each
type at its position. -/
theorem Holds.deconstruction_eq (t : TypeId) (arity : Nat) :
    r.deconstruction t arity =
      ((variantIn? ds t).bind (·.deconstructor? arity)).map (Field.ofTypes 0) := by
  rw [deconstruction, h.deconstructors_eq]
  cases variantIn? ds t with
  | none => rfl
  | some v =>
    simp only [Option.map_some, Option.bind_some, VariantDecl.deconstructor?, List.find?_map]
    congr 2
    funext types
    simp

theorem Holds.resolve_ty {d : UnionDecl} (hd : d ∈ ds) :
    r.resolve d.ty = if d.variants.isEmpty then .error (.noVariants d.ty) else .ok (unionOf d) := by
  rw [h.resolve_eq, h.wellFormed.unionIn?_ty hd]

/-- A type that no declaration registers as a union resolves to `notAUnion` when a declaration
lists it as a variant, and to `unknownType` otherwise. -/
theorem Holds.resolve_of_not_registered {t : TypeId} (unregistered : ∀ d ∈ ds, d.ty ≠ t) :
    r.resolve t = if ∃ d ∈ ds, ∃ v ∈ d.variants, v.ty = t then .error (.notAUnion t)
      else .error (.unknownType t) := by
  rw [h.resolve_eq, (unionIn?_eq_none_iff ds t).mpr unregistered]
  by_cases listed : ∃ d ∈ ds, ∃ v ∈ d.variants, v.ty = t
  · have owned : (ownerIn? ds t).isSome = true := by
      obtain ⟨d, hd, v, hv, same⟩ := listed
      rw [Option.isSome_iff_ne_none, ne_eq, ownerIn?_eq_none_iff]
      exact fun unowned => unowned d hd v hv same
    simp [owned, listed]
  · have unowned : ownerIn? ds t = none :=
      (ownerIn?_eq_none_iff ds t).mpr fun d hd v hv same => listed ⟨d, hd, v, hv, same⟩
    simp [unowned, listed]

theorem Holds.ownerOf?_ty {d : UnionDecl} {v : VariantDecl} (hd : d ∈ ds) (hv : v ∈ d.variants) :
    r.ownerOf? v.ty = some d.ty := by
  rw [h.ownerOf?_eq, h.wellFormed.ownerIn?_ty hd hv]

/-- A type that no declaration lists as a variant has no owner. -/
theorem Holds.ownerOf?_of_unlisted {t : TypeId} (unlisted : ∀ d ∈ ds, ∀ v ∈ d.variants, v.ty ≠ t) :
    r.ownerOf? t = none := by
  rw [h.ownerOf?_eq, ownerIn?_eq_none_iff]
  exact unlisted

theorem Holds.deconstruction_ty {d : UnionDecl} {v : VariantDecl} (hd : d ∈ ds)
    (hv : v ∈ d.variants) (arity : Nat) :
    r.deconstruction v.ty arity = (v.deconstructor? arity).map (Field.ofTypes 0) := by
  rw [h.deconstruction_eq, h.wellFormed.variantIn?_ty hd hv]
  rfl

/-- A type that no declaration lists as a variant has no deconstruction. -/
theorem Holds.deconstruction_of_unlisted {t : TypeId} (unlisted : ∀ d ∈ ds, ∀ v ∈ d.variants, v.ty ≠ t)
    (arity : Nat) : r.deconstruction t arity = none := by
  rw [h.deconstruction_eq, (variantIn?_eq_none_iff ds t).mpr unlisted]
  rfl

end Holds

/-! ### The check -/

theorem checkVariants_eq_ok_iff (r : Registry) (u : TypeId) (seen : List TypeId)
    (vs : List VariantDecl) :
    r.checkVariants u seen vs = .ok () ↔
      (∀ v ∈ vs, v.ty ≠ u ∧ v.ty ∉ seen ∧ r.ownerOf? v.ty = none) ∧ (vs.map (·.ty)).Nodup := by
  induction vs generalizing seen with
  | nil => simp [checkVariants]
  | cons v vs ih =>
    rw [checkVariants]
    -- the three refusals, in the order the check tries them
    by_cases self : v.ty = u
    · simp [self]
    · by_cases repeated : v.ty ∈ seen
      · simp [self, repeated]
      · cases owner : r.ownerOf? v.ty with
        | some o => simp [self, repeated, owner]
        | none =>
          simp only [self, repeated, if_false, ih]
          simp only [List.map_cons, List.nodup_cons, List.mem_map, List.mem_cons, not_or]
          grind

/-- A declaration is accepted exactly when its union is new, none of its variants is the union
itself or belongs to a registered union, and no variant is listed twice. -/
theorem check_eq_ok_iff (r : Registry) (d : UnionDecl) :
    r.check d = .ok () ↔ r.containsUnion d.ty = false ∧
      (∀ v ∈ d.variants, v.ty ≠ d.ty ∧ r.ownerOf? v.ty = none) ∧ (d.variants.map (·.ty)).Nodup := by
  rw [check]
  split
  · next registered => simp [registered]
  · next fresh => simp [fresh, checkVariants_eq_ok_iff]

/-! ### Registering -/

/-- Writing a declaration the check accepts makes the registry hold it after what it held: its
union and its variants are new keys, so each table grows by exactly the declaration's view. -/
theorem Holds.record {r : Registry} {ds : List UnionDecl} {d : UnionDecl} (h : r.Holds ds)
    (ok : r.check d = .ok ()) : (r.record d).Holds (ds ++ [d]) := by
  obtain ⟨fresh, each, nodup⟩ := (check_eq_ok_iff r d).mp ok
  have unregistered : unionIn? ds d.ty = none := by
    rw [unionIn?_eq_none_iff]
    intro e he same
    exact Bool.false_ne_true (fresh.symm.trans ((h.containsUnion_iff d.ty).mpr ⟨e, he, same⟩))
  have unowned : ∀ v ∈ d.variants, ownerIn? ds v.ty = none := fun v hv =>
    (h.ownerOf?_eq v.ty).symm.trans (each v hv).2
  have unlisted : ∀ v ∈ d.variants, variantIn? ds v.ty = none := fun v hv =>
    (variantIn?_eq_none_iff_ownerIn? ds v.ty).mpr (unowned v hv)
  refine ⟨h.wellFormed.append unregistered (fun v hv => ⟨(each v hv).1, unowned v hv⟩) nodup,
    fun t => ?_, fun t => ?_, fun t => ?_, ?_⟩
  · rw [unions_record, unionIn?_append_of_fresh unregistered]
    split <;> simp [h.unions_eq]
  · rw [owners_record, ownerIn?_append_of_fresh unowned, h.owners_eq]
  · rw [deconstructors_record r nodup, variantIn?_append, Option.map_or, h.deconstructors_eq]
    -- the old declarations and the new one never both list `t`
    cases listed : d.variants.find? (·.ty == t) with
    | none => simp
    | some v =>
      have same : v.ty = t := by simpa using List.find?_some listed
      subst same
      rw [unlisted v (List.mem_of_find?_eq_some listed)]
      simp
  · have absent : d.ty ∉ r.unions := by
      rw [Std.HashMap.mem_iff_contains]
      simpa [containsUnion] using fresh
    rw [size_record, if_neg absent, h.size_eq, List.length_append, List.length_singleton]

theorem Holds.register {r r' : Registry} {ds : List UnionDecl} {d : UnionDecl} (h : r.Holds ds)
    (ok : r.register d = .ok r') : r'.Holds (ds ++ [d]) := by
  obtain ⟨checked, rfl⟩ := (register_eq_ok_iff r r' d).mp ok
  exact h.record checked

/-! ### Runs -/

@[simp] theorem registerEach_nil (r : Registry) : r.registerEach [] = ([], r) := rfl

theorem registerEach_cons_of_ok {r r' : Registry} {d : UnionDecl} (ds : List UnionDecl)
    (h : r.register d = .ok r') :
    r.registerEach (d :: ds) = (.ok () :: (r'.registerEach ds).1, (r'.registerEach ds).2) := by
  rw [registerEach, h]

theorem registerEach_cons_of_error {r : Registry} {d : UnionDecl} {e : RegisterError}
    (ds : List UnionDecl) (h : r.register d = .error e) :
    r.registerEach (d :: ds) = (.error e :: (r.registerEach ds).1, (r.registerEach ds).2) := by
  rw [registerEach, h]

/-- The declarations a run accepted: those whose registration answered `ok`, in order. -/
def accepted (ds : List UnionDecl) (outcomes : List (Except RegisterError Unit)) : List UnionDecl :=
  ((ds.zip outcomes).filter (·.2.isOk)).map (·.1)

@[simp] theorem accepted_cons_ok (d : UnionDecl) (ds : List UnionDecl)
    (outcomes : List (Except RegisterError Unit)) :
    accepted (d :: ds) (.ok () :: outcomes) = d :: accepted ds outcomes := rfl

@[simp] theorem accepted_cons_error (d : UnionDecl) (ds : List UnionDecl) (e : RegisterError)
    (outcomes : List (Except RegisterError Unit)) :
    accepted (d :: ds) (.error e :: outcomes) = accepted ds outcomes := rfl

/-- After a run the registry holds what it held, then the accepted declarations. -/
theorem Holds.registerEach {r : Registry} {hs : List UnionDecl} (h : r.Holds hs)
    (ds : List UnionDecl) : (r.registerEach ds).2.Holds (hs ++ accepted ds (r.registerEach ds).1) := by
  induction ds generalizing r hs with
  | nil => simpa [accepted] using h
  | cons d ds ih =>
    cases ok : r.register d with
    | ok r' =>
      rw [registerEach_cons_of_ok ds ok, accepted_cons_ok, List.append_cons]
      exact ih (h.register ok)
    | error e =>
      rw [registerEach_cons_of_error ds ok, accepted_cons_error]
      exact ih h

end Registry

/-- **The registry refines the list of accepted declarations.** After any run of registrations
from the empty registry, some of them refused, let `accepted` be the declarations whose
registration answered `ok`, in order. Then the count is its length; a union is registered iff an
accepted declaration declares it; accepted unions are distinct, none lists itself, and no variant
type is listed twice across them; the owner of a listed variant is the union listing it, and an
unlisted type has none; a type resolves to the union of its declaration, with its variants in
order, unless that declaration has no variants (`noVariants`), and a type no accepted declaration
declares resolves to `notAUnion` when one lists it as a variant and to `unknownType` otherwise; and
a variant deconstructs by the first overload of each arity in its declaration, each type at its
position, while an unlisted type has no deconstruction. -/
theorem registry_refines_accepted (ds : List UnionDecl) :
    let run := Registry.empty.registerEach ds
    let r := run.2
    let accepted := Registry.accepted ds run.1
    r.size = accepted.length ∧
    (∀ t, r.containsUnion t = true ↔ ∃ d ∈ accepted, d.ty = t) ∧
    (accepted.map (·.ty)).Nodup ∧
    (∀ d ∈ accepted, ∀ v ∈ d.variants, v.ty ≠ d.ty) ∧
    (accepted.flatMap fun d => d.variants.map (·.ty)).Nodup ∧
    (∀ d ∈ accepted, ∀ v ∈ d.variants, r.ownerOf? v.ty = some d.ty) ∧
    (∀ t, (∀ d ∈ accepted, ∀ v ∈ d.variants, v.ty ≠ t) → r.ownerOf? t = none) ∧
    (∀ d ∈ accepted, d.variants ≠ [] → ∃ u, r.resolve d.ty = .ok u ∧
      u.ty = d.ty ∧ u.name = d.name ∧ u.variants = d.variants.map fun v => ⟨v.ty, v.name⟩) ∧
    (∀ d ∈ accepted, d.variants = [] → r.resolve d.ty = .error (.noVariants d.ty)) ∧
    (∀ t, (∀ d ∈ accepted, d.ty ≠ t) → (∃ d ∈ accepted, ∃ v ∈ d.variants, v.ty = t) →
      r.resolve t = .error (.notAUnion t)) ∧
    (∀ t, (∀ d ∈ accepted, d.ty ≠ t) → (∀ d ∈ accepted, ∀ v ∈ d.variants, v.ty ≠ t) →
      r.resolve t = .error (.unknownType t)) ∧
    (∀ d ∈ accepted, ∀ v ∈ d.variants, ∀ arity, r.deconstruction v.ty arity =
      (v.deconstructor? arity).map fun types => types.mapIdx fun i t => ⟨i, t⟩) ∧
    (∀ t arity, (∀ d ∈ accepted, ∀ v ∈ d.variants, v.ty ≠ t) →
      r.deconstruction t arity = none) := by
  intro run r accepted
  have holds : r.Holds accepted := by
    have reached := Registry.holds_empty.registerEach ds
    rwa [List.nil_append] at reached
  have wf := holds.wellFormed
  refine ⟨holds.size_eq, holds.containsUnion_iff, wf.unions_nodup, wf.not_self, wf.variants_nodup,
    fun d hd v hv => holds.ownerOf?_ty hd hv,
    fun t unlisted => holds.ownerOf?_of_unlisted unlisted,
    ?_, ?_, ?_, ?_, ?_, fun t arity unlisted => holds.deconstruction_of_unlisted unlisted arity⟩
  · intro d hd nonempty
    have listed_once := (List.nodup_flatMap.mp wf.variants_nodup).1 d hd
    refine ⟨Registry.unionOf d, ?_, rfl, rfl, Registry.variants_unionOf listed_once⟩
    rw [holds.resolve_ty hd, if_neg (by simpa using nonempty)]
  · intro d hd empty
    rw [holds.resolve_ty hd, if_pos (by simpa using empty)]
  · intro t unregistered listed
    rw [holds.resolve_of_not_registered unregistered, if_pos listed]
  · intro t unregistered unlisted
    rw [holds.resolve_of_not_registered unregistered, if_neg]
    exact fun ⟨d, hd, v, hv, same⟩ => unlisted d hd v hv same
  · intro d hd v hv arity
    rw [holds.deconstruction_ty hd hv]
    congr 1
    funext types
    simp [Field.ofTypes_eq_mapIdx]

end MatchCoverage
