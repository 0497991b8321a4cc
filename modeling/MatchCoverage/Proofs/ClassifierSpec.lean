import MatchCoverage.Proofs.Classification
import MatchCoverage.Proofs.ProverSpec

/-!
# What classification credits, and what it builds

Classification is judged here against the host's own grammar, without running the prover. Two
questions are asked of it.

**Which host shapes are credited.** A host pattern is read through its nested alternations
(`HostPattern.Alt`); an alternative *covers* a variant when its structure alone says it matches
every instance (`HostPattern.CoversVariant`): a discard, a binding, a test or declaration of the
variant's type, the bare recursive pattern of that type, or its positional pattern over a
deconstruction of the right length whose sub-patterns each have an alternative that covers its
field (`HostPattern.CoversField`: a discard, a binding, or a test or declaration of exactly the
field's declared type). An alternative covers `null` when it is a discard, a binding or the `null`
constant (`HostPattern.CoversNull`). The classifier credits exactly these
(`classify_credits_exactly`): no supertype, no constant, no property list and no pattern outside
the decidable grammar earns credit, and none of the covering shapes is lost.

**What it builds.** A classified pattern is read through its alternations too (`Pattern.Alt`).
Each of the three rules keeps the alternation tree of its input and never makes an alternation of
anything else (`Pattern.KeepsAlternatives`), so the nodes of a classified pattern are the
classifications of the nodes of the host pattern. Every variant a node names is listed by the
union, a positional node has one sub-pattern per host sub-pattern, each classified against the
field at its position of a deconstruction of exactly that length, and sub-patterns are built from
wildcards, refinements, unprovable patterns and alternations only (`classify_well_formed`).

Both rest on one fact about alternation trees (`KeepsAlternatives.holds_iff`): a property of
patterns that holds of an alternation exactly when it holds of an alternative holds of a
classification exactly when it holds of the classification of some non-alternation node. Each
classifier property is then a case analysis of one host node.
-/

namespace MatchCoverage

namespace HostPattern

/-- `a` is `h` itself or, read through nested alternations, one of its alternatives. -/
inductive Alt : HostPattern → HostPattern → Prop
  | refl (h : HostPattern) : Alt h h
  | anyOf {alts : List HostPattern} {a b : HostPattern} : a ∈ alts → Alt a b → Alt (.anyOf alts) b

/-- The shapes of a positional sub-pattern that match every value of the field `f`: a discard, a
binding, and a test or declaration of exactly the field's declared type. -/
inductive CoversField (f : Field) : HostPattern → Prop
  | discard : CoversField f .discard
  | binding (name : String) : CoversField f (.binding name)
  | typeTest : CoversField f (.typeTest f.ty)
  | declaration (name : String) : CoversField f (.declaration f.ty name)

/-- A sub-pattern is total for the field `f` when one of its alternatives covers the field. -/
def FieldTotal (f : Field) (h : HostPattern) : Prop :=
  ∃ a, h.Alt a ∧ a.CoversField f

/-- The shapes of an arm's pattern that match every instance of the variant `v` by their structure
alone: a discard, a binding, a test or declaration of `v`, the bare recursive pattern of `v`, and
the positional pattern of `v` over a deconstruction of its length whose sub-patterns are each
total for the field at their position. -/
inductive CoversVariant (host : Host) (v : TypeId) : HostPattern → Prop
  | discard : CoversVariant host v .discard
  | binding (name : String) : CoversVariant host v (.binding name)
  | typeTest : CoversVariant host v (.typeTest v)
  | declaration (name : String) : CoversVariant host v (.declaration v name)
  | record (designation : Option String) :
      CoversVariant host v (.record (some v) none none designation)
  | positional {subs : List HostPattern} {fields : List Field} (designation : Option String) :
      host.deconstruction v subs.length = some fields → fields.length = subs.length →
      (∀ i (hs : i < subs.length) (hf : i < fields.length), FieldTotal fields[i] subs[i]) →
      CoversVariant host v (.record (some v) (some subs) none designation)

/-- The shapes of an arm's pattern that match `null`: a discard, a binding and the `null`
constant. -/
inductive CoversNull : HostPattern → Prop
  | discard : CoversNull .discard
  | binding (name : String) : CoversNull (.binding name)
  | null : CoversNull HostPattern.null

end HostPattern

namespace Pattern

/-- `q` is `p` itself or, read through nested alternations, one of its alternatives. -/
inductive Alt : Pattern → Pattern → Prop
  | refl (p : Pattern) : Alt p p
  | anyOf {alts : List Pattern} {a b : Pattern} : a ∈ alts → Alt a b → Alt (.anyOf alts) b

/-- The nodes a sub-pattern may have: wildcards, refinements, unprovable patterns and
alternations. -/
def SubNode (q : Pattern) : Prop :=
  q = .wildcard ∨ q = .refinement ∨ q = .unprovable ∨ ∃ ps, q = .anyOf ps

/-- Every node of `p`, read through its alternations, is one a sub-pattern may have. -/
def FieldShaped (p : Pattern) : Prop :=
  ∀ q, p.Alt q → q.SubNode

/-- A classification rule keeps alternations: an alternation becomes the alternation of the
classified alternatives, and nothing else becomes an alternation. -/
structure KeepsAlternatives (F : HostPattern → Pattern) : Prop where
  anyOf : ∀ alts, F (.anyOf alts) = .anyOf (alts.map F)
  not_anyOf : ∀ h, (∀ alts, h ≠ .anyOf alts) → ∀ ps, F h ≠ .anyOf ps

theorem isTotal_anyOf_iff {alts : List Pattern} :
    (Pattern.anyOf alts).isTotal = true ↔ ∃ a ∈ alts, a.isTotal = true := by
  rw [isTotal]
  induction alts with
  | nil => simp [anyTotal]
  | cons p ps ih => simp [anyTotal, ih]

/-- A property that holds of an alternation exactly when it holds of an alternative holds of a
pattern exactly when it holds of one of its non-alternation nodes. -/
theorem exists_leaf_of {P : Pattern → Prop} (hP : ∀ ps, P (.anyOf ps) ↔ ∃ p ∈ ps, P p) :
    (p : Pattern) → P p → ∃ q, p.Alt q ∧ (∀ ps, q ≠ .anyOf ps) ∧ P q
  | .anyOf ps, hp => by
    obtain ⟨a, mem, ha⟩ := (hP ps).mp hp
    obtain ⟨q, alt, leaf, hq⟩ := exists_leaf_of hP a ha
    exact ⟨q, .anyOf mem alt, leaf, hq⟩
  | .wildcard, hp | .nullLiteral, hp | .variantTest _, hp | .positional _ _, hp
  | .propertyTest _ _, hp | .refinement, hp | .unprovable, hp =>
    ⟨_, .refl _, fun _ => Pattern.noConfusion, hp⟩
termination_by p => p
decreasing_by
  have := List.sizeOf_lt_of_mem mem
  simp_wf
  omega

theorem Alt.holds {P : Pattern → Prop} (hP : ∀ ps, P (.anyOf ps) ↔ ∃ p ∈ ps, P p)
    {p q : Pattern} (alt : p.Alt q) (hq : P q) : P p := by
  induction alt with
  | refl => exact hq
  | anyOf mem _ ih => exact (hP _).mpr ⟨_, mem, ih hq⟩

section KeepsAlternatives

variable {F : HostPattern → Pattern} (hF : KeepsAlternatives F)
include hF

/-- The nodes of a classification are the classifications of the host's nodes. -/
theorem KeepsAlternatives.alt_iff (h : HostPattern) (q : Pattern) :
    (F h).Alt q ↔ ∃ a, h.Alt a ∧ F a = q := by
  constructor
  · intro alt
    generalize image : F h = p at alt
    induction alt generalizing h with
    | refl => exact ⟨h, .refl h, image⟩
    | anyOf mem _ ih =>
      -- only an alternation classifies to an alternation
      by_cases alternation : ∃ alts, h = .anyOf alts
      · obtain ⟨alts, rfl⟩ := alternation
        rw [hF.anyOf, Pattern.anyOf.injEq] at image
        subst image
        obtain ⟨a, ha, rfl⟩ := List.mem_map.mp mem
        obtain ⟨b, alt, rfl⟩ := ih a rfl
        exact ⟨b, .anyOf ha alt, rfl⟩
      · exact absurd image (hF.not_anyOf h (fun alts same => alternation ⟨alts, same⟩) _)
  · rintro ⟨a, alt, rfl⟩
    induction alt with
    | refl => exact .refl _
    | anyOf mem _ ih =>
      rw [hF.anyOf]
      exact .anyOf (List.mem_map_of_mem mem) ih

/-- A property read through alternations holds of a classification exactly when it holds of the
classification of a non-alternation node of the host pattern. -/
theorem KeepsAlternatives.holds_iff {P : Pattern → Prop} (hP : ∀ ps, P (.anyOf ps) ↔ ∃ p ∈ ps, P p)
    {Q : HostPattern → Prop} (leaf : ∀ a, (∀ alts, a ≠ .anyOf alts) → (P (F a) ↔ Q a))
    (hQ : ∀ alts, ¬ Q (.anyOf alts)) (h : HostPattern) :
    P (F h) ↔ ∃ a, h.Alt a ∧ Q a := by
  constructor
  · intro holds
    obtain ⟨q, alt, not_alt, hq⟩ := exists_leaf_of hP (F h) holds
    obtain ⟨a, ha, rfl⟩ := (hF.alt_iff h q).mp alt
    have leaf_a : ∀ alts, a ≠ .anyOf alts := by
      rintro alts rfl
      exact not_alt _ (hF.anyOf alts)
    exact ⟨a, ha, (leaf a leaf_a).mp hq⟩
  · rintro ⟨a, ha, qa⟩
    have leaf_a : ∀ alts, a ≠ .anyOf alts := by
      rintro alts rfl
      exact hQ alts qa
    exact Alt.holds hP ((hF.alt_iff h (F a)).mpr ⟨a, ha, rfl⟩) ((leaf a leaf_a).mpr qa)

end KeepsAlternatives

/-! ### The three rules keep alternations -/

theorem ofFieldAll_eq_map (f : Field) (alts : List HostPattern) :
    ofFieldAll f alts = alts.map (ofField f) := by
  induction alts with
  | nil => rfl
  | cons a alts ih => rw [ofFieldAll, ih, List.map_cons]

theorem ofUnanchoredAll_eq_map (alts : List HostPattern) :
    ofUnanchoredAll alts = alts.map ofUnanchored := by
  induction alts with
  | nil => rfl
  | cons a alts ih => rw [ofUnanchoredAll, ih, List.map_cons]

theorem keepsAlternatives_ofField (f : Field) : KeepsAlternatives (ofField f) where
  anyOf alts := by rw [ofField, ofFieldAll_eq_map]
  not_anyOf h leaf ps := by
    cases h with
    | typeTest t | declaration t _ =>
      simp only [ofField]
      split <;> exact Pattern.noConfusion
    | anyOf alts => exact absurd rfl (leaf alts)
    | _ => simp [ofField]

theorem keepsAlternatives_ofUnanchored : KeepsAlternatives ofUnanchored where
  anyOf alts := by rw [ofUnanchored, ofUnanchoredAll_eq_map]
  not_anyOf h leaf ps := by
    cases h with
    | anyOf alts => exact absurd rfl (leaf alts)
    | _ => simp [ofUnanchored]

/-! ### Sub-patterns -/

/-- A type test at a field is total exactly for the field's own declared type. -/
theorem isTotal_ofField_typeTest (f : Field) (t : TypeId) :
    (ofField f (.typeTest t)).isTotal = true ↔ t = f.ty := by
  by_cases exact : t = f.ty <;> simp [ofField, exact, isTotal]

/-- At a node that is not an alternation, the field rule is total exactly at the shapes that
cover the field. -/
theorem isTotal_ofField_leaf (f : Field) :
    (a : HostPattern) → (∀ alts, a ≠ .anyOf alts) → ((ofField f a).isTotal = true ↔ a.CoversField f)
  | .discard, _ => iff_of_true rfl .discard
  | .binding name, _ => iff_of_true rfl (.binding name)
  | .typeTest t, _ =>
    (isTotal_ofField_typeTest f t).trans ⟨by rintro rfl; exact .typeTest, by rintro ⟨⟩; rfl⟩
  | .declaration t name, _ =>
    -- a declaration is read as the type test of its type
    (isTotal_ofField_typeTest f t).trans ⟨by rintro rfl; exact .declaration name, by rintro ⟨⟩; rfl⟩
  | .constant _, _ | .relational _ _, _ | .record _ _ _ _, _ | .allOf _, _ | .negation _, _
  | .list _, _ | .other, _ => iff_of_false (by simp [ofField, isTotal]) (by rintro ⟨⟩)
  | .anyOf alts, leaf => absurd rfl (leaf alts)

/-- The field rule classifies a sub-pattern as total exactly when one of its alternatives covers
the field. -/
theorem isTotal_ofField_iff (f : Field) (h : HostPattern) :
    (ofField f h).isTotal = true ↔ h.FieldTotal f :=
  @KeepsAlternatives.holds_iff _ (keepsAlternatives_ofField f) (fun p => p.isTotal = true)
    (fun _ => isTotal_anyOf_iff) (fun a => a.CoversField f) (isTotal_ofField_leaf f)
    (fun _ covers => by cases covers) h

/-- The sub-patterns of a positional pattern are all total exactly when each host sub-pattern is
total for the field at its position. -/
theorem forall_isTotal_zipWith_iff {subs : List HostPattern} {fields : List Field} :
    (∀ s ∈ List.zipWith (fun s f => ofField f s) subs fields, s.isTotal = true) ↔
      ∀ i (hs : i < subs.length) (hf : i < fields.length), subs[i].FieldTotal fields[i] := by
  constructor
  · intro total i hs hf
    apply (isTotal_ofField_iff _ _).mp
    apply total
    have within : i < (List.zipWith (fun s f => ofField f s) subs fields).length := by
      rw [List.length_zipWith]
      omega
    simpa using List.getElem_mem within
  · intro total s mem
    obtain ⟨i, within, rfl⟩ := List.mem_iff_getElem.mp mem
    rw [List.length_zipWith] at within
    rw [List.getElem_zipWith]
    exact (isTotal_ofField_iff _ _).mpr (total i (by omega) (by omega))

theorem subNode_ofField (f : Field) (a : HostPattern) : (ofField f a).SubNode := by
  cases a with
  | typeTest t | declaration t _ =>
    simp only [ofField]
    split <;> simp [SubNode]
  | _ => simp [ofField, SubNode]

theorem subNode_ofUnanchored (a : HostPattern) : (ofUnanchored a).SubNode := by
  cases a <;> simp [ofUnanchored, SubNode]

theorem fieldShaped_ofField (f : Field) (h : HostPattern) : (ofField f h).FieldShaped := by
  intro q alt
  obtain ⟨a, -, rfl⟩ := ((keepsAlternatives_ofField f).alt_iff h q).mp alt
  exact subNode_ofField f a

theorem fieldShaped_ofUnanchored (h : HostPattern) : (ofUnanchored h).FieldShaped := by
  intro q alt
  obtain ⟨a, -, rfl⟩ := (keepsAlternatives_ofUnanchored.alt_iff h q).mp alt
  exact subNode_ofUnanchored a

end Pattern

namespace Context

theorem classifyAll_eq_map (c : Context) (alts : List HostPattern) :
    c.classifyAll alts = alts.map c.classify := by
  induction alts with
  | nil => rfl
  | cons a alts ih => rw [classifyAll, ih, List.map_cons]

/-- A recursive pattern classifies as `unprovable`, or it names a listed variant and is its bare
test, its positional pattern over a deconstruction of exactly its length, or its property test. -/
theorem classifyRecord_cases (c : Context) (ty : Option TypeId)
    (positional : Option (List HostPattern)) (properties : Option (List (String × HostPattern))) :
    c.classifyRecord ty positional properties = .unprovable ∨
    ∃ v, ty = some v ∧ c.union.contains v = true ∧
      ((positional = none ∧ properties = none ∧
          c.classifyRecord ty positional properties = .variantTest v) ∨
      (∃ subs fields, positional = some subs ∧ properties = none ∧
          c.deconstruction v subs.length = some fields ∧
          c.classifyRecord ty positional properties =
            .positional v (List.zipWith (fun s f => Pattern.ofField f s) subs fields)) ∨
      (∃ props, positional = none ∧ properties = some props ∧
          c.classifyRecord ty positional properties =
            .propertyTest v (props.map fun (name, p) => (name, Pattern.ofUnanchored p)))) := by
  unfold classifyRecord
  split
  · exact .inl rfl
  · next v named =>
    obtain ⟨t, rfl, ht⟩ := Option.bind_eq_some_iff.mp named
    obtain ⟨rfl, listed⟩ := variantOf?_eq_some_iff.mp ht
    -- the four shapes of the two optional lists
    split
    · exact .inr ⟨t, rfl, listed, .inl ⟨rfl, rfl, rfl⟩⟩
    · exact .inl rfl
    · next subs =>
      split
      · exact .inl rfl
      · next fields found =>
        exact .inr ⟨t, rfl, listed, .inr (.inl ⟨subs, fields, rfl, rfl, found, rfl⟩)⟩
    · next props => exact .inr ⟨t, rfl, listed, .inr (.inr ⟨props, rfl, rfl, rfl⟩)⟩

theorem classifyRecord_ne_anyOf (c : Context) (ty : Option TypeId)
    (positional : Option (List HostPattern)) (properties : Option (List (String × HostPattern)))
    (ps : List Pattern) : c.classifyRecord ty positional properties ≠ .anyOf ps := by
  intro same
  rcases c.classifyRecord_cases ty positional properties with
    shape | ⟨v, -, -, ⟨-, -, shape⟩ | ⟨_, _, -, -, -, shape⟩ | ⟨_, -, -, shape⟩⟩ <;>
  exact Pattern.noConfusion (shape.symm.trans same)

/-- What one node classifies to: a recursive pattern and an alternation go through their own
rules, every other node classifies to a test of a listed variant or to a pattern that names
none. -/
theorem classify_cases (c : Context) (a : HostPattern) :
    (∃ ty positional properties designation, a = .record ty positional properties designation) ∨
    (∃ alts, a = .anyOf alts) ∨
    (∃ v, c.union.contains v = true ∧ c.classify a = .variantTest v) ∨
    c.classify a = .wildcard ∨ c.classify a = .nullLiteral ∨ c.classify a = .refinement ∨
    c.classify a = .unprovable := by
  cases a with
  | record ty positional properties designation => exact .inl ⟨_, _, _, _, rfl⟩
  | anyOf alts => exact .inr (.inl ⟨alts, rfl⟩)
  | typeTest t | declaration t _ =>
    simp only [classify]
    split
    · next w named =>
      obtain ⟨rfl, listed⟩ := variantOf?_eq_some_iff.mp named
      exact .inr (.inr (.inl ⟨t, listed, rfl⟩))
    · simp
  | constant k => cases k <;> simp [classify]
  | _ => simp [classify]

theorem classify_eq_variantTest {c : Context} {a : HostPattern} {v : TypeId}
    (h : c.classify a = .variantTest v) : c.union.contains v = true := by
  rcases c.classify_cases a with ⟨ty, positional, properties, _, rfl⟩ | ⟨alts, rfl⟩ |
    ⟨w, listed, shape⟩ | shape | shape | shape | shape
  · rw [classify] at h
    rcases c.classifyRecord_cases ty positional properties with
      shape | ⟨w, -, listed, ⟨-, -, shape⟩ | ⟨_, _, -, -, -, shape⟩ | ⟨_, -, -, shape⟩⟩ <;>
    rw [shape] at h <;> cases h
    exact listed
  · rw [classify] at h
    cases h
  · rw [shape] at h
    cases h
    exact listed
  all_goals rw [shape] at h; cases h

/-- A positional node comes from a recursive pattern of a listed variant with a positional list
and no property list, over a deconstruction of exactly its length, each sub-pattern classified
against the field at its position. -/
theorem classify_eq_positional {c : Context} {a : HostPattern} {v : TypeId} {subs : List Pattern}
    (h : c.classify a = .positional v subs) :
    c.union.contains v = true ∧ ∃ hs fields designation,
      a = .record (some v) (some hs) none designation ∧ c.deconstruction v hs.length = some fields ∧
      subs = List.zipWith (fun s f => Pattern.ofField f s) hs fields := by
  rcases c.classify_cases a with ⟨ty, positional, properties, designation, rfl⟩ | ⟨alts, rfl⟩ |
    ⟨w, -, shape⟩ | shape | shape | shape | shape
  · rw [classify] at h
    rcases c.classifyRecord_cases ty positional properties with shape |
      ⟨w, rfl, listed, ⟨-, -, shape⟩ | ⟨hs, fields, rfl, rfl, found, shape⟩ | ⟨_, -, -, shape⟩⟩ <;>
    rw [shape] at h <;> cases h
    exact ⟨listed, hs, fields, designation, rfl, found, rfl⟩
  · rw [classify] at h
    cases h
  all_goals rw [shape] at h; cases h

/-- A property node comes from a recursive pattern of a listed variant whose property
sub-patterns are classified by the unanchored rule. -/
theorem classify_eq_propertyTest {c : Context} {a : HostPattern} {v : TypeId}
    {props : List (String × Pattern)} (h : c.classify a = .propertyTest v props) :
    c.union.contains v = true ∧ ∃ hostProps : List (String × HostPattern),
      props = hostProps.map fun (name, p) => (name, Pattern.ofUnanchored p) := by
  rcases c.classify_cases a with ⟨ty, positional, properties, _, rfl⟩ | ⟨alts, rfl⟩ |
    ⟨w, -, shape⟩ | shape | shape | shape | shape
  · rw [classify] at h
    rcases c.classifyRecord_cases ty positional properties with
      shape | ⟨w, -, listed, ⟨-, -, shape⟩ | ⟨_, _, -, -, -, shape⟩ | ⟨hostProps, -, -, shape⟩⟩ <;>
    rw [shape] at h <;> cases h
    exact ⟨listed, hostProps, rfl⟩
  · rw [classify] at h
    cases h
  all_goals rw [shape] at h; cases h

theorem classifyRecord_bare {c : Context} {v : TypeId} (listed : c.union.contains v = true) :
    c.classifyRecord (some v) none none = .variantTest v := by
  simp [classifyRecord, variantOf?, listed]

theorem classifyRecord_positional {c : Context} {v : TypeId} {subs : List HostPattern}
    {fields : List Field} (listed : c.union.contains v = true)
    (found : c.host.deconstruction v subs.length = some fields)
    (hlen : fields.length = subs.length) :
    c.classifyRecord (some v) (some subs) none =
      .positional v (List.zipWith (fun s f => Pattern.ofField f s) subs fields) := by
  have filtered : c.deconstruction v subs.length = some fields :=
    deconstruction_eq_some_iff.mpr ⟨found, hlen⟩
  simp [classifyRecord, variantOf?, listed, filtered]

/-- A type test resolves a listed variant exactly when it names it. -/
theorem resolves_classify_typeTest_iff {c : Context} {t v : TypeId}
    (listed : c.union.contains v = true) : (c.classify (.typeTest t)).Resolves v ↔ t = v := by
  constructor
  · exact eq_of_resolves_classify_typeTest
  · rintro rfl
    simpa [classify, variantOf?, listed] using Pattern.Resolves.variantTest

/-- At a node that is not an alternation, the classifier resolves a listed variant exactly at the
shapes that cover it. -/
theorem resolves_classify_leaf {c : Context} {v : TypeId} (listed : c.union.contains v = true) :
    (a : HostPattern) → (∀ alts, a ≠ .anyOf alts) →
      ((c.classify a).Resolves v ↔ a.CoversVariant c.host v)
  | .discard, _ => iff_of_true .wildcard .discard
  | .binding name, _ => iff_of_true .wildcard (.binding name)
  | .typeTest t, _ =>
    (resolves_classify_typeTest_iff listed).trans
      ⟨by rintro rfl; exact .typeTest, by rintro ⟨⟩; rfl⟩
  | .declaration t name, _ => by
    rw [classify_declaration]
    exact (resolves_classify_typeTest_iff listed).trans
      ⟨by rintro rfl; exact .declaration name, by rintro ⟨⟩; rfl⟩
  | .record ty positional properties designation, _ => by
    rw [classify]
    constructor
    · intro resolves
      -- the bare test, or a positional list whose field patterns are all total
      obtain ⟨rfl, rfl, bare | ⟨subs, fields, rfl, found, total⟩⟩ :=
        resolves_classifyRecord resolves
      · subst bare
        exact .record designation
      · obtain ⟨found, hlen⟩ := deconstruction_eq_some_iff.mp found
        exact .positional designation found hlen (Pattern.forall_isTotal_zipWith_iff.mp total)
    · intro covers
      cases covers with
      | record => exact classifyRecord_bare listed ▸ .variantTest
      | positional _ found hlen total =>
        rw [classifyRecord_positional listed found hlen]
        exact .positional (Pattern.forall_isTotal_zipWith_iff.mpr total)
  | .constant k, _ => iff_of_false (by cases k <;> rintro ⟨⟩) (by rintro ⟨⟩)
  | .relational _ _, _ | .allOf _, _ | .negation _, _ | .list _, _ | .other, _ =>
    iff_of_false (by rintro ⟨⟩) (by rintro ⟨⟩)
  | .anyOf alts, leaf => absurd rfl (leaf alts)

/-- At a node that is not an alternation, the classifier handles `null` exactly at the shapes
that cover it. -/
theorem handlesNull_classify_leaf (c : Context) :
    (a : HostPattern) → (∀ alts, a ≠ .anyOf alts) → ((c.classify a).HandlesNull ↔ a.CoversNull)
  | .discard, _ => iff_of_true .wildcard .discard
  | .binding name, _ => iff_of_true .wildcard (.binding name)
  | .constant k, _ => by
    cases k with
    | null => exact iff_of_true .nullLiteral .null
    | bool _ | int _ | float _ | char _ | str _ => exact iff_of_false (by rintro ⟨⟩) (by rintro ⟨⟩)
  | .typeTest t, _ | .declaration t _, _ => by
    refine iff_of_false ?_ (by rintro ⟨⟩)
    simp only [classify]
    split <;> rintro ⟨⟩
  | .record ty positional properties _, _ =>
    iff_of_false (not_handlesNull_classifyRecord c ty positional properties) (by rintro ⟨⟩)
  | .relational _ _, _ | .allOf _, _ | .negation _, _ | .list _, _ | .other, _ =>
    iff_of_false (by rintro ⟨⟩) (by rintro ⟨⟩)
  | .anyOf alts, leaf => absurd rfl (leaf alts)

theorem keepsAlternatives_classify (c : Context) : Pattern.KeepsAlternatives c.classify where
  anyOf alts := by rw [classify, classifyAll_eq_map]
  not_anyOf h leaf ps := by
    cases h with
    | typeTest t | declaration t _ =>
      simp only [classify]
      split <;> exact Pattern.noConfusion
    | constant k => cases k <;> simp [classify]
    | record ty positional properties _ =>
      exact c.classifyRecord_ne_anyOf ty positional properties ps
    | anyOf alts => exact absurd rfl (leaf alts)
    | _ => simp [classify]

end Context

theorem ClosedUnion.contains_of_mem_ids {u : ClosedUnion} {v : TypeId} (h : v ∈ u.ids) :
    u.contains v = true := by
  simpa [ClosedUnion.contains, ClosedUnion.ids] using h

/-- **Classification credits exactly the structurally decidable shapes.** For every host, union,
host pattern and variant `v` of the union: the classified pattern resolves `v` iff, read through
its alternations, the host pattern has an alternative that covers `v` (a discard, a binding, a
test or declaration of `v`, the bare recursive pattern of `v`, or its positional pattern over a
deconstruction of exactly its length with every sub-pattern total for its field); it handles
`null` iff an alternative is a discard, a binding or `null`; and a sub-pattern is classified as
total for a field iff one of its alternatives is a discard, a binding, or a test or declaration
of exactly the field's type. -/
theorem classify_credits_exactly (host : Host) (u : ClosedUnion) (h : HostPattern) (v : TypeId)
    (listed : v ∈ u.ids) :
    (((Context.mk host u).classify h).Resolves v ↔ ∃ a, h.Alt a ∧ a.CoversVariant host v) ∧
    (((Context.mk host u).classify h).HandlesNull ↔ ∃ a, h.Alt a ∧ a.CoversNull) ∧
    ∀ f sub, (Pattern.ofField f sub).isTotal = true ↔ sub.FieldTotal f := by
  have keeps := Context.keepsAlternatives_classify ⟨host, u⟩
  refine ⟨?_, ?_, Pattern.isTotal_ofField_iff⟩
  · exact keeps.holds_iff (fun _ => Pattern.resolves_anyOf_iff)
      (Context.resolves_classify_leaf (ClosedUnion.contains_of_mem_ids listed))
      (fun _ covers => nomatch covers) h
  · exact keeps.holds_iff (fun _ => Pattern.handlesNull_anyOf_iff)
      (Context.handlesNull_classify_leaf _) (fun _ covers => nomatch covers) h

/-- A circle matched by `Circle(float r)` or by `null`, read against a host whose circles
deconstruct into one `float` field: the pattern resolves the circle through its first alternative
and handles `null` through its second. -/
theorem classify_credits_exactly_circle :
    let host : Host := ⟨fun t => .error (.unknownType t),
      fun v n => if v = ⟨17⟩ ∧ n = 1 then some [⟨0, ⟨1⟩⟩] else none⟩
    let shapes := ClosedUnion.ofVariants ⟨16⟩ "Shape" [⟨⟨17⟩, "Circle"⟩, ⟨⟨18⟩, "Triangle"⟩]
    let arm : HostPattern := .anyOf [.positional ⟨17⟩ [.declaration ⟨1⟩ "r"], .null]
    TypeId.mk 17 ∈ shapes.ids ∧
    ((((Context.mk host shapes).classify arm).Resolves ⟨17⟩ ↔
        ∃ a, arm.Alt a ∧ a.CoversVariant host ⟨17⟩) ∧
      (((Context.mk host shapes).classify arm).HandlesNull ↔ ∃ a, arm.Alt a ∧ a.CoversNull) ∧
      ∀ f sub, (Pattern.ofField f sub).isTotal = true ↔ sub.FieldTotal f) := by
  intro host shapes arm
  have listed : TypeId.mk 17 ∈ shapes.ids := by decide
  exact ⟨listed, classify_credits_exactly host shapes arm ⟨17⟩ listed⟩

/-- **Classification builds well-formed patterns, for every host.** Whatever the host answers,
even deconstructions of the wrong length: the nodes of a classified pattern, read through its
alternations, are exactly the classifications of the host pattern's nodes; every variant test
names a listed variant; every positional node names a listed variant and comes from a recursive
pattern of it with a positional list and no property list, over a deconstruction the host gave
for exactly that length, with one sub-pattern per host sub-pattern, each the field rule applied at
its position; property nodes name listed variants; sub-patterns are built from wildcards,
refinements, unprovable patterns and alternations only; and all three rules keep the alternation
tree of their input. -/
theorem classify_well_formed (host : Host) (u : ClosedUnion) (h : HostPattern) :
    let c : Context := ⟨host, u⟩
    (∀ q, (c.classify h).Alt q ↔ ∃ a, h.Alt a ∧ c.classify a = q) ∧
    (∀ v, (c.classify h).Alt (.variantTest v) → u.contains v = true) ∧
    (∀ v subs, (c.classify h).Alt (.positional v subs) → u.contains v = true ∧
      ∃ hs fields designation, h.Alt (.record (some v) (some hs) none designation) ∧
        host.deconstruction v hs.length = some fields ∧ fields.length = hs.length ∧
        subs.length = hs.length ∧
        (∀ i (hi : i < subs.length) (hh : i < hs.length) (hf : i < fields.length),
          subs[i] = Pattern.ofField fields[i] hs[i]) ∧
        ∀ s ∈ subs, s.FieldShaped) ∧
    (∀ v props, (c.classify h).Alt (.propertyTest v props) → u.contains v = true ∧
      ∀ entry ∈ props, entry.2.FieldShaped) ∧
    Pattern.KeepsAlternatives c.classify ∧ (∀ f, Pattern.KeepsAlternatives (Pattern.ofField f)) ∧
    Pattern.KeepsAlternatives Pattern.ofUnanchored := by
  intro c
  have nodes := (Context.keepsAlternatives_classify c).alt_iff h
  refine ⟨nodes, ?_, ?_, ?_, Context.keepsAlternatives_classify c,
    Pattern.keepsAlternatives_ofField, Pattern.keepsAlternatives_ofUnanchored⟩
  · intro v alt
    obtain ⟨a, -, shape⟩ := (nodes _).mp alt
    exact Context.classify_eq_variantTest shape
  · intro v subs alt
    obtain ⟨a, ha, shape⟩ := (nodes _).mp alt
    obtain ⟨listed, hs, fields, designation, rfl, found, rfl⟩ :=
      Context.classify_eq_positional shape
    obtain ⟨found, hlen⟩ := Context.deconstruction_eq_some_iff.mp found
    refine ⟨listed, hs, fields, designation, ha, found, hlen, by simp [hlen], ?_, ?_⟩
    · intro i _ _ _
      rw [List.getElem_zipWith]
    · intro s mem
      obtain ⟨i, within, rfl⟩ := List.mem_iff_getElem.mp mem
      rw [List.getElem_zipWith]
      exact Pattern.fieldShaped_ofField _ _
  · intro v props alt
    obtain ⟨a, -, shape⟩ := (nodes _).mp alt
    obtain ⟨listed, hostProps, rfl⟩ := Context.classify_eq_propertyTest shape
    refine ⟨listed, ?_⟩
    intro entry mem
    obtain ⟨⟨name, p⟩, -, rfl⟩ := List.mem_map.mp mem
    exact Pattern.fieldShaped_ofUnanchored p

end MatchCoverage
