import MatchCoverage.Pattern.Classify
import MatchCoverage.Pattern.Contribution

/-!
# What classification can produce

The facts about a `Context` and about classification that coverage proofs cite instead of
unfolding the classifier:

* a type names a variant only when the union lists exactly that type (`variantOf?_eq_some_iff`),
  so a type test or a declaration resolves only the variant it names
  (`eq_of_resolves_classify_typeTest`);
* a deconstruction the context hands out is the host's own answer and has exactly the length asked
  for (`deconstruction_eq_some_iff`);
* a recursive pattern resolves a variant in two shapes only, the bare type and a positional list
  whose field patterns are all total (`resolves_classifyRecord`), and never handles `null`
  (`not_handlesNull_classifyRecord`);
* every classified arm stands for one host arm and keeps its guard (`mem_classifyConstruct`).
-/

namespace MatchCoverage

namespace Context

theorem variantOf?_eq_some_iff {c : Context} {t w : TypeId} :
    c.variantOf? t = some w ↔ t = w ∧ c.union.contains t = true := by
  unfold variantOf?
  split
  · next listed =>
    constructor
    · rintro ⟨⟩
      exact ⟨rfl, listed⟩
    · rintro ⟨rfl, -⟩
      rfl
  · next unlisted =>
    constructor
    · rintro ⟨⟩
    · rintro ⟨rfl, listed⟩
      exact absurd listed unlisted

theorem deconstruction_eq_some_iff {c : Context} {v : TypeId} {n : Nat} {fields : List Field} :
    c.deconstruction v n = some fields ↔
      c.host.deconstruction v n = some fields ∧ fields.length = n := by
  simp [deconstruction]

/-- A declaration classifies as the type test of its type: the name it binds plays no part. -/
theorem classify_declaration (c : Context) (t : TypeId) (name : String) :
    c.classify (.declaration t name) = c.classify (.typeTest t) := rfl

/-- A type test resolves only the variant it names. -/
theorem eq_of_resolves_classify_typeTest {c : Context} {t v : TypeId}
    (h : (c.classify (.typeTest t)).Resolves v) : t = v := by
  simp only [classify] at h
  split at h
  · next w named =>
    cases h
    exact (variantOf?_eq_some_iff.mp named).1
  · cases h

/-- A recursive pattern resolves `v` only when it names `v`, has no property list, and has either
no positional list or one whose field patterns, classified against the deconstruction of its
length, are all total. -/
theorem resolves_classifyRecord {c : Context} {ty : Option TypeId}
    {positional : Option (List HostPattern)} {properties : Option (List (String × HostPattern))}
    {v : TypeId} (h : (c.classifyRecord ty positional properties).Resolves v) :
    ty = some v ∧ properties = none ∧
      (positional = none ∨ ∃ subs fields, positional = some subs ∧
        c.deconstruction v subs.length = some fields ∧
        ∀ s ∈ List.zipWith (fun s f => Pattern.ofField f s) subs fields, s.isTotal = true) := by
  unfold classifyRecord at h
  split at h
  · cases h
  · next w named =>
    obtain ⟨t, rfl, ht⟩ := Option.bind_eq_some_iff.mp named
    obtain ⟨rfl, -⟩ := variantOf?_eq_some_iff.mp ht
    -- the four shapes of the two optional lists
    split at h
    · cases h
      exact ⟨rfl, rfl, .inl rfl⟩
    · cases h
    · split at h
      · cases h
      · next fields found =>
        cases h with
        | positional total => exact ⟨rfl, rfl, .inr ⟨_, fields, rfl, found, total⟩⟩
    · cases h

/-- Whatever its parts, a recursive pattern never handles `null`. -/
theorem not_handlesNull_classifyRecord (c : Context) (ty : Option TypeId)
    (positional : Option (List HostPattern)) (properties : Option (List (String × HostPattern))) :
    ¬ (c.classifyRecord ty positional properties).HandlesNull := by
  unfold classifyRecord
  split
  · rintro ⟨⟩
  · split
    · rintro ⟨⟩
    · rintro ⟨⟩
    · split <;> rintro ⟨⟩
    · rintro ⟨⟩

/-- Every classified arm of a match is the classification of one of the host's arms, with the
same guard. -/
theorem mem_classifyConstruct {c : Context} {nullable : Bool} {arms : List HostArm} {a : Arm}
    (h : a ∈ (c.classifyConstruct nullable arms).arms) :
    ∃ arm ∈ arms, a.guarded = arm.guarded ∧ a.pattern = c.classify arm.pattern := by
  obtain ⟨i, hi, rfl⟩ := List.mem_mapIdx.mp h
  exact ⟨arms[i], List.getElem_mem hi, rfl, rfl⟩

end Context

end MatchCoverage
