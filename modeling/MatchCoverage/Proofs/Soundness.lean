import MatchCoverage.Proofs.Classification
import MatchCoverage.Proofs.ProverSpec

/-!
# An exhaustive verdict is never false

The engine exists for one property: when classification followed by the proof says a match is
exhaustive, every value its subject can hold at run time is matched by an arm without a guard.

A value is `null` or an instance of a declared type (`Value`). A match sees an instance only
through its type and its positional deconstructions, so an instance carries, for every length
`n`, the `n` values its deconstruction of that length binds; those field values are of an
arbitrary type, and nothing is assumed about them. The subject of a match over `u` holds `null`
when it is nullable and any instance of any variant of `u` (`Value.OfSubject`).

The run-time meaning of the host's patterns is not fixed here: it is a `Matching` relation, for
top-level patterns and for sub-patterns at a field, and the theorem holds for EVERY relation that
does at least what the host's language promises (`Matching.Respects`): discards and bindings
match everything; `null` matches `null`; a type test, a declaration and a bare recursive pattern
of a type match every instance of that type; a positional pattern matches an instance whose
deconstruction of that length, as the host reports it, has each field value matched by the
sub-pattern at its position; an alternation matches what one alternative matches; and at a field,
a discard, a binding, and a test or declaration of exactly the field's declared type match every
value of the field. A relation may match more; the verdict never relies on it.

**The law** (`exhaustive_sound`): for every host, union, nullability and list of host arms, if the
classified arms are proved exhaustive then every value of the subject is matched by an unguarded
arm, under every matching relation that respects the host.

The proof composes two halves. `verdict_prove_eq_exhaustive_iff` turns the verdict into the
declarative coverage: some unguarded arm handles `null` and every variant is resolved by one.
Classification is then sound pattern by pattern: a classified pattern that handles `null` comes
from a host pattern that matches `null` (`top_null_of_handlesNull`), one that resolves `v` comes
from a host pattern that matches every instance of `v` (`top_inst_of_resolves`), and a total field
pattern comes from a sub-pattern that matches every value of its field (`field_of_isTotal`). Each
follows the recursion of its classification rule, alternations included.
-/

namespace MatchCoverage

/-- A value the subject of a match holds at run time: `null`, or an instance of the declared type
`ty` whose deconstruction of length `n` binds the field values `parts n`. -/
inductive Value (α : Type) where
  | null
  | inst (ty : TypeId) (parts : (n : Nat) → Fin n → α)

/-- The values the subject of a match over `u` can hold: `null` when it is nullable, and every
instance of every variant of `u`, whatever its fields hold. -/
def Value.OfSubject {α : Type} (u : ClosedUnion) (nullable : Bool) : Value α → Prop
  | .null => nullable = true
  | .inst t _ => t ∈ u.ids

/-- A run-time meaning of the host's patterns: which patterns match which values at the top of an
arm, and which sub-patterns match which field values at a field of a deconstruction. -/
structure Matching (α : Type) where
  top : HostPattern → Value α → Prop
  field : Field → HostPattern → α → Prop

/-- What every faithful matching relation does at least, given the host's deconstructions. -/
structure Matching.Respects {α : Type} (R : Matching α) (host : Host) : Prop where
  discard : ∀ x, R.top .discard x
  binding : ∀ name x, R.top (.binding name) x
  null : R.top HostPattern.null .null
  typeTest : ∀ t parts, R.top (.typeTest t) (.inst t parts)
  declaration : ∀ t name parts, R.top (.declaration t name) (.inst t parts)
  record : ∀ t designation parts, R.top (.record (some t) none none designation) (.inst t parts)
  positional : ∀ t subs designation parts fields, host.deconstruction t subs.length = some fields →
    fields.length = subs.length →
    (∀ i (hf : i < fields.length) (hs : i < subs.length),
      R.field fields[i] subs[i] (parts subs.length ⟨i, hs⟩)) →
    R.top (.record (some t) (some subs) none designation) (.inst t parts)
  anyOf : ∀ alts a x, a ∈ alts → R.top a x → R.top (.anyOf alts) x
  fieldDiscard : ∀ f x, R.field f .discard x
  fieldBinding : ∀ f name x, R.field f (.binding name) x
  fieldTypeTest : ∀ f x, R.field f (.typeTest f.ty) x
  fieldDeclaration : ∀ f name x, R.field f (.declaration f.ty name) x
  fieldAnyOf : ∀ f alts a x, a ∈ alts → R.field f a x → R.field f (.anyOf alts) x

/-- At a field, the least relation matches only what every faithful relation must. -/
inductive Matching.LeastField {α : Type} : Field → HostPattern → α → Prop
  | discard {f x} : LeastField f .discard x
  | binding {f name x} : LeastField f (.binding name) x
  | typeTest {f x} : LeastField f (.typeTest f.ty) x
  | declaration {f name x} : LeastField f (.declaration f.ty name) x
  | anyOf {f alts a x} : a ∈ alts → LeastField f a x → LeastField f (.anyOf alts) x

/-- At the top of an arm, the least relation matches only what every faithful relation must. -/
inductive Matching.LeastTop {α : Type} (host : Host) : HostPattern → Value α → Prop
  | discard {x} : LeastTop host .discard x
  | binding {name x} : LeastTop host (.binding name) x
  | null : LeastTop host HostPattern.null .null
  | typeTest {t parts} : LeastTop host (.typeTest t) (.inst t parts)
  | declaration {t name parts} : LeastTop host (.declaration t name) (.inst t parts)
  | record {t designation parts} : LeastTop host (.record (some t) none none designation) (.inst t parts)
  | positional {t subs designation parts fields} : host.deconstruction t subs.length = some fields →
    fields.length = subs.length →
    (∀ i (hf : i < fields.length) (hs : i < subs.length),
      LeastField fields[i] subs[i] (parts subs.length ⟨i, hs⟩)) →
    LeastTop host (.record (some t) (some subs) none designation) (.inst t parts)
  | anyOf {alts a x} : a ∈ alts → LeastTop host a x → LeastTop host (.anyOf alts) x

/-- The least matching relation that respects a host. -/
def Matching.least {α : Type} (host : Host) : Matching α :=
  ⟨LeastTop host, LeastField⟩

theorem Matching.least_respects {α : Type} (host : Host) :
    (Matching.least host : Matching α).Respects host where
  discard _ := .discard
  binding _ _ := .binding
  null := .null
  typeTest _ _ := .typeTest
  declaration _ _ _ := .declaration
  record _ _ _ := .record
  positional _ _ _ _ _ found hlen fields := .positional found hlen fields
  anyOf _ _ _ mem h := .anyOf mem h
  fieldDiscard _ _ := .discard
  fieldBinding _ _ _ := .binding
  fieldTypeTest _ _ := .typeTest
  fieldDeclaration _ _ _ := .declaration
  fieldAnyOf _ _ _ _ mem h := .anyOf mem h

section Soundness

variable {α : Type} {R : Matching α} {host : Host}

mutual

/-- A sub-pattern whose field classification is total matches every value of its field. -/
theorem field_of_isTotal (hR : R.Respects host) (f : Field) :
    (h : HostPattern) → (Pattern.ofField f h).isTotal = true → ∀ x, R.field f h x
  | .discard, _ => hR.fieldDiscard f
  | .binding name, _ => hR.fieldBinding f name
  | .typeTest t, total => by
    simp only [Pattern.ofField] at total
    split at total
    · next same => exact same ▸ hR.fieldTypeTest f
    · simp [Pattern.isTotal] at total
  | .declaration t name, total => by
    simp only [Pattern.ofField] at total
    split at total
    · next same => exact same ▸ hR.fieldDeclaration f name
    · simp [Pattern.isTotal] at total
  | .anyOf alts, total => by
    simp only [Pattern.ofField, Pattern.isTotal] at total
    obtain ⟨a, mem, all⟩ := exists_field_of_anyTotal hR f alts total
    exact fun x => hR.fieldAnyOf f alts a x mem (all x)
  | .constant _, total | .relational _ _, total | .record _ _ _ _, total | .allOf _, total
  | .negation _, total | .list _, total | .other, total => by
    simp [Pattern.ofField, Pattern.isTotal] at total

/-- Among alternatives whose field classification has a total member, one matches every value. -/
theorem exists_field_of_anyTotal (hR : R.Respects host) (f : Field) :
    (hs : List HostPattern) → Pattern.anyTotal (Pattern.ofFieldAll f hs) = true →
      ∃ h ∈ hs, ∀ x, R.field f h x
  | [], total => by simp [Pattern.ofFieldAll, Pattern.anyTotal] at total
  | h :: hs, total => by
    simp only [Pattern.ofFieldAll, Pattern.anyTotal, Bool.or_eq_true] at total
    rcases total with here | later
    · exact ⟨h, List.mem_cons_self, field_of_isTotal hR f h here⟩
    · obtain ⟨a, mem, all⟩ := exists_field_of_anyTotal hR f hs later
      exact ⟨a, List.mem_cons_of_mem h mem, all⟩

end

/-- A positional pattern whose field patterns are all total matches every instance of its
variant: each field value meets a sub-pattern that matches all of its field. -/
theorem top_positional_of_total (hR : R.Respects host) {v : TypeId} {subs : List HostPattern}
    {fields : List Field} (designation : Option String) (found : host.deconstruction v subs.length = some fields)
    (hlen : fields.length = subs.length)
    (total : ∀ s ∈ List.zipWith (fun s f => Pattern.ofField f s) subs fields, s.isTotal = true)
    (parts : (n : Nat) → Fin n → α) :
    R.top (.record (some v) (some subs) none designation) (.inst v parts) := by
  apply hR.positional v subs designation parts fields found hlen
  intro i hf hs
  have at_i : (Pattern.ofField fields[i] subs[i]).isTotal = true := by
    apply total
    have within : i < (List.zipWith (fun s f => Pattern.ofField f s) subs fields).length := by
      rw [List.length_zipWith]
      omega
    have mem := List.getElem_mem within
    rwa [List.getElem_zipWith] at mem
  exact field_of_isTotal hR fields[i] subs[i] at_i _

mutual

/-- A host pattern whose classification handles `null` matches `null`. -/
theorem top_null_of_handlesNull (hR : R.Respects host) (u : ClosedUnion) :
    (h : HostPattern) → ((Context.mk host u).classify h).HandlesNull → R.top h .null
  | .discard, _ => hR.discard _
  | .binding name, _ => hR.binding name _
  | .constant c, handles => by
    cases c with
    | null => exact hR.null
    | bool _ | int _ | float _ | char _ | str _ => cases handles
  | .anyOf alts, handles => by
    rw [Context.classify, Pattern.handlesNull_anyOf_iff] at handles
    obtain ⟨a, mem, all⟩ := exists_top_null_of_handlesNull hR u alts handles
    exact hR.anyOf alts a .null mem all
  | .record ty positional properties _, handles =>
    absurd handles (Context.not_handlesNull_classifyRecord _ ty positional properties)
  | .typeTest t, handles | .declaration t _, handles => by
    simp only [Context.classify] at handles
    split at handles <;> cases handles
  | .relational _ _, handles | .allOf _, handles | .negation _, handles | .list _, handles
  | .other, handles => by cases handles

/-- Among alternatives whose classifications include one that handles `null`, one matches
`null`. -/
theorem exists_top_null_of_handlesNull (hR : R.Respects host) (u : ClosedUnion) :
    (hs : List HostPattern) → (∃ a ∈ (Context.mk host u).classifyAll hs, a.HandlesNull) →
      ∃ h ∈ hs, R.top h .null
  | [], ⟨_, mem, _⟩ => by simp [Context.classifyAll] at mem
  | h :: hs, ⟨a, mem, handles⟩ => by
    rw [Context.classifyAll, List.mem_cons] at mem
    rcases mem with rfl | later
    · exact ⟨h, List.mem_cons_self, top_null_of_handlesNull hR u h handles⟩
    · obtain ⟨b, mem, matched⟩ := exists_top_null_of_handlesNull hR u hs ⟨a, later, handles⟩
      exact ⟨b, List.mem_cons_of_mem h mem, matched⟩

end

mutual

/-- A host pattern whose classification resolves `v` matches every instance of `v`. -/
theorem top_inst_of_resolves (hR : R.Respects host) (u : ClosedUnion) (v : TypeId) :
    (h : HostPattern) → ((Context.mk host u).classify h).Resolves v →
      ∀ parts, R.top h (.inst v parts)
  | .discard, _, _ => hR.discard _
  | .binding name, _, _ => hR.binding name _
  | .typeTest t, resolves, parts => by
    obtain rfl := Context.eq_of_resolves_classify_typeTest resolves
    exact hR.typeTest _ parts
  | .declaration t name, resolves, parts => by
    rw [Context.classify_declaration] at resolves
    obtain rfl := Context.eq_of_resolves_classify_typeTest resolves
    exact hR.declaration _ name parts
  | .record ty positional properties designation, resolves, parts => by
    -- the bare type, or a positional list over a deconstruction with every field covered
    obtain ⟨rfl, rfl, bare | ⟨subs, fields, rfl, found, total⟩⟩ :=
      Context.resolves_classifyRecord resolves
    · subst bare
      exact hR.record v designation parts
    · obtain ⟨found, hlen⟩ := Context.deconstruction_eq_some_iff.mp found
      exact top_positional_of_total hR designation found hlen total parts
  | .anyOf alts, resolves, parts => by
    rw [Context.classify, Pattern.resolves_anyOf_iff] at resolves
    obtain ⟨a, mem, all⟩ := exists_top_inst_of_resolves hR u v alts resolves
    exact hR.anyOf alts a _ mem (all parts)
  | .constant c, resolves, _ => by cases c <;> cases resolves
  | .relational _ _, resolves, _ | .allOf _, resolves, _ | .negation _, resolves, _
  | .list _, resolves, _ | .other, resolves, _ => by cases resolves

/-- Among alternatives whose classifications include one that resolves `v`, one matches every
instance of `v`. -/
theorem exists_top_inst_of_resolves (hR : R.Respects host) (u : ClosedUnion) (v : TypeId) :
    (hs : List HostPattern) → (∃ a ∈ (Context.mk host u).classifyAll hs, a.Resolves v) →
      ∃ h ∈ hs, ∀ parts, R.top h (.inst v parts)
  | [], ⟨_, mem, _⟩ => by simp [Context.classifyAll] at mem
  | h :: hs, ⟨a, mem, resolves⟩ => by
    rw [Context.classifyAll, List.mem_cons] at mem
    rcases mem with rfl | later
    · exact ⟨h, List.mem_cons_self, top_inst_of_resolves hR u v h resolves⟩
    · obtain ⟨b, mem, matched⟩ := exists_top_inst_of_resolves hR u v hs ⟨a, later, resolves⟩
      exact ⟨b, List.mem_cons_of_mem h mem, matched⟩

end

end Soundness

/-- **An exhaustive verdict is sound.** For every host, every union, every nullability and every
list of host arms, if the arms classified against the union are proved exhaustive, then every value
the subject can hold (`null` if it is nullable, any instance of any variant with any field values)
is matched by an arm without a guard, under every matching relation that respects the host. -/
theorem exhaustive_sound (host : Host) (u : ClosedUnion) (nullable : Bool) (arms : List HostArm)
    {α : Type} (R : Matching α) (hR : R.Respects host)
    (exhaustive :
      (prove u ((Context.mk host u).classifyConstruct nullable arms)).verdict = .exhaustive)
    (x : Value α) (hx : x.OfSubject u nullable) :
    ∃ arm ∈ arms, arm.guarded = false ∧ R.top arm.pattern x := by
  obtain ⟨handled, resolved⟩ := (verdict_prove_eq_exhaustive_iff u _).mp exhaustive
  cases x with
  | null =>
    obtain ⟨a, mem, unguarded, handles⟩ := handled hx
    obtain ⟨arm, mem', guard, pattern⟩ := Context.mem_classifyConstruct mem
    rw [pattern] at handles
    exact ⟨arm, mem', guard ▸ unguarded, top_null_of_handlesNull hR u arm.pattern handles⟩
  | inst t parts =>
    obtain ⟨a, mem, unguarded, resolves⟩ := resolved t hx
    obtain ⟨arm, mem', guard, pattern⟩ := Context.mem_classifyConstruct mem
    rw [pattern] at resolves
    exact ⟨arm, mem', guard ▸ unguarded, top_inst_of_resolves hR u t arm.pattern resolves parts⟩

/-- A union of circles and triangles, matched by `Circle(float r)`, `Triangle` and `null`: the
arms are proved exhaustive, and a circle meets an unguarded arm under the least relation. -/
theorem exhaustive_sound_circles :
    let host : Host := ⟨fun t => .error (.unknownType t),
      fun v n => if v = ⟨17⟩ ∧ n = 1 then some [⟨0, ⟨1⟩⟩] else none⟩
    let shapes := ClosedUnion.ofVariants ⟨16⟩ "Shape" [⟨⟨17⟩, "Circle"⟩, ⟨⟨18⟩, "Triangle"⟩]
    let arms : List HostArm := [{ pattern := .positional ⟨17⟩ [.declaration ⟨1⟩ "r"] },
      { pattern := .typeTest ⟨18⟩ }, { pattern := .null }]
    let circle : Value Unit := .inst ⟨17⟩ fun _ _ => ()
    (Matching.least host : Matching Unit).Respects host ∧
      (prove shapes ((Context.mk host shapes).classifyConstruct true arms)).verdict = .exhaustive ∧
      circle.OfSubject shapes true ∧
      ∃ arm ∈ arms, arm.guarded = false ∧ (Matching.least host).top arm.pattern circle := by
  intro host shapes arms circle
  have exhaustive :
      (prove shapes ((Context.mk host shapes).classifyConstruct true arms)).verdict = .exhaustive := by
    decide
  have listed : circle.OfSubject shapes true := by
    show TypeId.mk 17 ∈ shapes.ids
    decide
  exact ⟨Matching.least_respects host, exhaustive, listed,
    exhaustive_sound host shapes true arms _ (Matching.least_respects host) exhaustive circle listed⟩

end MatchCoverage
