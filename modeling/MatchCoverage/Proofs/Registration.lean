import MatchCoverage.Proofs.RegistryView

/-!
# Registration refuses the first violation, and refuses it whole

A declaration is checked before anything is recorded. Its union must not be registered yet;
then its variants are checked in declaration order, each against three rules tried in turn: it
must not be the union itself, must not repeat an earlier variant of the declaration, and must not
belong to a registered union. The first variant that breaks a rule is reported, with the first rule
it breaks (`Registry.Refusal`).

The check is read in two steps. One step of the variant scan either refuses the variant at hand or
passes it on with its identity noted (`checkVariants_cons_eq_error`); a run of the scan is then
split at the first refused variant, whose predecessors all pass and are distinct
(`checkVariants_eq_error_iff`). A refused registration returns no registry, so the caller goes on
with the one it had: in a run of registrations the refused call leaves the registry as it was.

Building a registry from a list of declarations registers them in order and stops at the first
refusal (`ofDecls_eq_error_iff`); when none is refused the registry holds them all, in order
(`holds_of_ofDecls_eq_ok`), in the sense of `Registry.Holds`: each of its tables is the view of
that list.

**The law** (`register_refuses_first_violation`): registration fails exactly when the union is
registered, a variant is the union itself, a variant is listed twice, or a variant is owned; the
reason is `duplicateUnion` when the union is registered and otherwise the first rule broken by the
first variant that breaks one, naming the variant's owner when it is owned; a refused call leaves
the registry unchanged for the rest of a run; and a registry built from a list is the first
refusal of the list, or the registry of every declaration.
-/

namespace MatchCoverage

namespace Registry

/-- Why the variant `v` of a declaration of `u`, listed after the variants `earlier`, is refused:
it is the union itself; else it repeats an earlier variant; else a registered union owns it. -/
def Refusal (r : Registry) (u : TypeId) (earlier : List TypeId) (v : TypeId) (e : RegisterError) :
    Prop :=
  (v = u ∧ e = .selfVariant u) ∨
  (v ≠ u ∧ v ∈ earlier ∧ e = .duplicateVariant u v) ∨
  (v ≠ u ∧ v ∉ earlier ∧ ∃ owner, r.ownerOf? v = some owner ∧ e = .variantOwned v owner)

/-- A refusal depends on the earlier variants only through which identities they list. -/
theorem Refusal.perm {r : Registry} {u v : TypeId} {earlier earlier' : List TypeId}
    {e : RegisterError} (h : r.Refusal u earlier v e) (same : earlier.Perm earlier') :
    r.Refusal u earlier' v e := by
  unfold Refusal at h ⊢
  rwa [← same.mem_iff]

/-- A refused variant refuses the rest of the scan, with its reason. -/
theorem checkVariants_cons_of_refusal {r : Registry} {u : TypeId} {seen : List TypeId}
    {x : VariantDecl} {e : RegisterError} (refused : r.Refusal u seen x.ty e) (xs : List VariantDecl) :
    r.checkVariants u seen (x :: xs) = .error e := by
  rcases refused with ⟨self, rfl⟩ | ⟨other, repeated, rfl⟩ | ⟨other, fresh, owner, owned, rfl⟩
  · simp [checkVariants, self]
  · simp [checkVariants, other, repeated]
  · simp [checkVariants, other, fresh, owned]

/-- A variant that breaks no rule is noted and the scan goes on. -/
theorem checkVariants_cons_of_pass {r : Registry} {u : TypeId} {seen : List TypeId}
    {x : VariantDecl} (other : x.ty ≠ u) (fresh : x.ty ∉ seen) (unowned : r.ownerOf? x.ty = none)
    (xs : List VariantDecl) :
    r.checkVariants u seen (x :: xs) = r.checkVariants u (x.ty :: seen) xs := by
  simp [checkVariants, other, fresh, unowned]

/-- One step of the scan refuses the variant at hand, or passes it and refuses later. -/
theorem checkVariants_cons_eq_error {r : Registry} {u : TypeId} {seen : List TypeId}
    {x : VariantDecl} {xs : List VariantDecl} {e : RegisterError}
    (h : r.checkVariants u seen (x :: xs) = .error e) :
    r.Refusal u seen x.ty e ∨ (x.ty ≠ u ∧ x.ty ∉ seen ∧ r.ownerOf? x.ty = none ∧
      r.checkVariants u (x.ty :: seen) xs = .error e) := by
  rw [checkVariants] at h
  by_cases self : x.ty = u
  · rw [if_pos self] at h
    exact .inl (.inl ⟨self, (Except.error.inj h).symm⟩)
  · rw [if_neg self] at h
    by_cases repeated : x.ty ∈ seen
    · rw [if_pos repeated] at h
      exact .inl (.inr (.inl ⟨self, repeated, (Except.error.inj h).symm⟩))
    · rw [if_neg repeated] at h
      cases owned : r.ownerOf? x.ty with
      | some owner =>
        rw [owned] at h
        exact .inl (.inr (.inr ⟨self, repeated, owner, owned, (Except.error.inj h).symm⟩))
      | none =>
        rw [owned] at h
        exact .inr ⟨self, repeated, rfl, h⟩

/-- A failed scan splits at a first refused variant: the variants before it break no rule and are
distinct, and the reason is the refusal of that variant after them. -/
theorem checkVariants_split_of_eq_error {r : Registry} {u : TypeId} {seen : List TypeId}
    {vs : List VariantDecl} {e : RegisterError} (h : r.checkVariants u seen vs = .error e) :
    ∃ pre v post, vs = pre ++ v :: post ∧
      (∀ w ∈ pre, w.ty ≠ u ∧ w.ty ∉ seen ∧ r.ownerOf? w.ty = none) ∧ (pre.map (·.ty)).Nodup ∧
      r.Refusal u (seen ++ pre.map (·.ty)) v.ty e := by
  induction vs generalizing seen with
  | nil => simp [checkVariants] at h
  | cons x xs ih =>
    rcases checkVariants_cons_eq_error h with refused | ⟨other, fresh, unowned, later⟩
    · exact ⟨[], x, xs, rfl, by simp, List.nodup_nil, by simpa using refused⟩
    · -- `x` passes: the first refused variant lies further on, with `x` among those before it
      obtain ⟨pre, v, post, rfl, clean, nodup, refused⟩ := ih later
      refine ⟨x :: pre, v, post, rfl, ?_, ?_, refused.perm List.perm_middle.symm⟩
      · intro w hw
        rcases List.mem_cons.mp hw with rfl | hw
        · exact ⟨other, fresh, unowned⟩
        · obtain ⟨wo, wf, wu⟩ := clean w hw
          exact ⟨wo, fun ws => wf (List.mem_cons_of_mem _ ws), wu⟩
      · refine List.nodup_cons.mpr ⟨fun listed => ?_, nodup⟩
        obtain ⟨w, hw, same⟩ := List.mem_map.mp listed
        exact (clean w hw).2.1 (same ▸ List.mem_cons_self)

/-- A scan whose variants split at a refused variant, every one before it breaking no rule and
all distinct, fails with that variant's refusal. -/
theorem checkVariants_eq_error_of_split {r : Registry} {u : TypeId} {seen : List TypeId}
    {pre : List VariantDecl} {v : VariantDecl} {e : RegisterError}
    (clean : ∀ w ∈ pre, w.ty ≠ u ∧ w.ty ∉ seen ∧ r.ownerOf? w.ty = none)
    (nodup : (pre.map (·.ty)).Nodup) (refused : r.Refusal u (seen ++ pre.map (·.ty)) v.ty e)
    (post : List VariantDecl) :
    r.checkVariants u seen (pre ++ v :: post) = .error e := by
  induction pre generalizing seen with
  | nil => exact checkVariants_cons_of_refusal (by simpa using refused) post
  | cons x pre ih =>
    obtain ⟨other, fresh, unowned⟩ := clean x List.mem_cons_self
    rw [List.cons_append, checkVariants_cons_of_pass other fresh unowned]
    rw [List.map_cons, List.nodup_cons] at nodup
    -- the scan goes on with `x` noted, which the rest does not repeat
    refine ih (fun w hw => ?_) nodup.2 (refused.perm List.perm_middle)
    obtain ⟨wo, wf, wu⟩ := clean w (List.mem_cons_of_mem _ hw)
    refine ⟨wo, fun ws => ?_, wu⟩
    rcases List.mem_cons.mp ws with same | ws
    · exact nodup.1 (same ▸ List.mem_map_of_mem hw)
    · exact wf ws

/-- The scan of the variants fails exactly at a first refused variant: the variants before it
break no rule and are distinct, and the reason is the refusal of that variant after them. -/
theorem checkVariants_eq_error_iff (r : Registry) (u : TypeId) (seen : List TypeId)
    (vs : List VariantDecl) (e : RegisterError) :
    r.checkVariants u seen vs = .error e ↔ ∃ pre v post, vs = pre ++ v :: post ∧
      (∀ w ∈ pre, w.ty ≠ u ∧ w.ty ∉ seen ∧ r.ownerOf? w.ty = none) ∧ (pre.map (·.ty)).Nodup ∧
      r.Refusal u (seen ++ pre.map (·.ty)) v.ty e := by
  constructor
  · exact checkVariants_split_of_eq_error
  · rintro ⟨pre, v, post, rfl, clean, nodup, refused⟩
    exact checkVariants_eq_error_of_split clean nodup refused post

/-- Registration fails exactly when the check does not pass. -/
theorem exists_register_eq_error_iff (r : Registry) (d : UnionDecl) :
    (∃ e, r.register d = .error e) ↔ r.check d ≠ .ok () := by
  simp only [register_eq_error_iff]
  cases r.check d with
  | ok u => simp
  | error e => simp

/-! ### Building a registry from a list -/

theorem foldlM_register_cons (r : Registry) (d : UnionDecl) (ds : List UnionDecl) :
    (d :: ds).foldlM register r =
      match r.register d with
      | .ok r' => ds.foldlM register r'
      | .error e => .error e := by
  rw [List.foldlM_cons]
  cases r.register d <;> rfl

/-- A run of registrations succeeds when its first registration does and the rest succeed from
the registry it leaves. -/
theorem foldlM_register_cons_eq_ok {r r' : Registry} {d : UnionDecl} {ds : List UnionDecl} :
    (d :: ds).foldlM register r = .ok r' ↔
      ∃ r₁, r.register d = .ok r₁ ∧ ds.foldlM register r₁ = .ok r' := by
  rw [foldlM_register_cons]
  cases r.register d <;> simp

/-- Registering a list in order, when nothing is refused, makes the registry hold the whole list
after what it held. -/
theorem Holds.foldlM_register {r r' : Registry} {hs ds : List UnionDecl} (h : r.Holds hs)
    (ok : ds.foldlM Registry.register r = .ok r') : r'.Holds (hs ++ ds) := by
  induction ds generalizing r hs with
  | nil =>
    cases ok
    simpa using h
  | cons d ds ih =>
    obtain ⟨r₁, accepted, rest⟩ := foldlM_register_cons_eq_ok.mp ok
    rw [List.append_cons]
    exact ih (h.register accepted) rest

/-- Registering a list in order fails exactly at its first refused declaration. -/
theorem foldlM_register_eq_error_iff (ds : List UnionDecl) (r : Registry) (e : RegisterError) :
    ds.foldlM register r = .error e ↔ ∃ pre d post r', ds = pre ++ d :: post ∧
      pre.foldlM register r = .ok r' ∧ r'.register d = .error e := by
  constructor
  · intro h
    induction ds generalizing r with
    | nil => cases h
    | cons d ds ih =>
      rw [foldlM_register_cons] at h
      cases accepted : r.register d with
      | error e' =>
        rw [accepted] at h
        cases h
        exact ⟨[], d, ds, r, rfl, rfl, accepted⟩
      | ok r₁ =>
        -- `d` is registered: the first refusal lies further on
        rw [accepted] at h
        obtain ⟨pre, d', post, r', rfl, prefix_ok, refused⟩ := ih r₁ h
        exact ⟨d :: pre, d', post, r', rfl,
          foldlM_register_cons_eq_ok.mpr ⟨r₁, accepted, prefix_ok⟩, refused⟩
  · rintro ⟨pre, d, post, r', rfl, prefix_ok, refused⟩
    induction pre generalizing r with
    | nil =>
      cases prefix_ok
      rw [List.nil_append, foldlM_register_cons, refused]
    | cons x pre ih =>
      obtain ⟨r₁, accepted, rest⟩ := foldlM_register_cons_eq_ok.mp prefix_ok
      rw [List.cons_append, foldlM_register_cons, accepted]
      exact ih r₁ rest

theorem holds_of_ofDecls_eq_ok {ds : List UnionDecl} {r : Registry} (h : ofDecls ds = .ok r) :
    r.Holds ds := by
  simpa using holds_empty.foldlM_register h

/-- A registry built from a list is refused at the first declaration refused by the registry of
the declarations before it, which holds exactly those. -/
theorem ofDecls_eq_error_iff (ds : List UnionDecl) (e : RegisterError) :
    ofDecls ds = .error e ↔ ∃ pre d post r₀, ds = pre ++ d :: post ∧
      ofDecls pre = .ok r₀ ∧ r₀.Holds pre ∧ r₀.register d = .error e := by
  rw [ofDecls, foldlM_register_eq_error_iff]
  constructor
  · rintro ⟨pre, d, post, r₀, rfl, prefix_ok, refused⟩
    exact ⟨pre, d, post, r₀, rfl, prefix_ok, holds_of_ofDecls_eq_ok prefix_ok, refused⟩
  · rintro ⟨pre, d, post, r₀, rfl, prefix_ok, -, refused⟩
    exact ⟨pre, d, post, r₀, rfl, prefix_ok, refused⟩

end Registry

/-- **Registration refuses exactly the invalid declarations, names the first violation, and is
atomic.** For every registry and every declaration:

* registration fails iff the union is registered, or a variant is the union itself, or a variant
  type is listed twice, or a variant is owned by a registered union;
* the reason is `duplicateUnion` when the union is registered; otherwise the declaration splits at
  its first offending variant, every variant before it breaking no rule, and the reason is the
  first rule that variant breaks, in the order `selfVariant`, `duplicateVariant`,
  `variantOwned` (with the variant's owner);
* a refused call leaves the registry as it was for the rest of a run of registrations;
* a registry built from a list of declarations holds all of them, in order, when it is built,
  and otherwise is refused with the reason of the first declaration that the registry of the ones
  before it, which holds exactly those, refuses. -/
theorem register_refuses_first_violation (r : Registry) (d : UnionDecl) :
    ((∃ e, r.register d = .error e) ↔ r.containsUnion d.ty = true ∨
      (∃ v ∈ d.variants, v.ty = d.ty) ∨ ¬ (d.variants.map (·.ty)).Nodup ∨
      ∃ v ∈ d.variants, r.ownerOf? v.ty ≠ none) ∧
    (∀ e, r.register d = .error e ↔
      (r.containsUnion d.ty = true ∧ e = .duplicateUnion d.ty) ∨
      (r.containsUnion d.ty = false ∧ ∃ pre v post, d.variants = pre ++ v :: post ∧
        (∀ w ∈ pre, w.ty ≠ d.ty ∧ r.ownerOf? w.ty = none) ∧ (pre.map (·.ty)).Nodup ∧
        r.Refusal d.ty (pre.map (·.ty)) v.ty e)) ∧
    (∀ e ds, r.register d = .error e →
      r.registerEach (d :: ds) = (.error e :: (r.registerEach ds).1, (r.registerEach ds).2)) ∧
    ∀ ds : List UnionDecl, (∀ r', Registry.ofDecls ds = .ok r' → r'.Holds ds) ∧
      ∀ e, Registry.ofDecls ds = .error e ↔ ∃ pre d post r₀, ds = pre ++ d :: post ∧
        Registry.ofDecls pre = .ok r₀ ∧ r₀.Holds pre ∧ r₀.register d = .error e := by
  refine ⟨?_, fun e => ?_, fun e ds refused => Registry.registerEach_cons_of_error ds refused,
    fun ds => ⟨fun _ => Registry.holds_of_ofDecls_eq_ok, Registry.ofDecls_eq_error_iff ds⟩⟩
  · -- some variant breaks a rule exactly when not every variant keeps both per-variant rules
    have each : (¬ ∀ v ∈ d.variants, v.ty ≠ d.ty ∧ r.ownerOf? v.ty = none) ↔
        (∃ v ∈ d.variants, v.ty = d.ty) ∨ ∃ v ∈ d.variants, r.ownerOf? v.ty ≠ none := by
      simp only [not_forall, not_and_or, Ne, not_not, exists_prop, and_or_left, exists_or]
    rw [Registry.exists_register_eq_error_iff, Ne, Registry.check_eq_ok_iff, not_and_or, not_and_or,
      each, Bool.not_eq_false]
    simp only [or_left_comm, or_comm]
  · rw [Registry.register_eq_error_iff, Registry.check]
    cases registered : r.containsUnion d.ty with
    | true => simp [eq_comm]
    | false =>
      simp only [Bool.false_eq_true, if_false, Registry.checkVariants_eq_error_iff,
        List.not_mem_nil, not_false_eq_true, true_and, List.nil_append, false_and, false_or]

end MatchCoverage
