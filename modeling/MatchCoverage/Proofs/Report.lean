import Mathlib.Data.List.Sort
import MatchCoverage.Proofs.ByteOrder
import MatchCoverage.Proofs.ProverSpec

/-!
# The report of missing patterns explains the verdict

A report lists what a match does not cover: the names of the unresolved variants, and `null` when
the subject may be `null` and no arm handles it. The texts are sorted by code point and each is
listed once; a variant named `null` merges with the missing `null`, and two variants of one name
show once. Variant names are held as their text, so the name a union gives a variant is the text
the report shows.

For every coverage, the report is strictly increasing, by code point and so by UTF-8 bytes
(`missingPatterns_sorted`, `missingPatterns_sorted_bytes`), holds exactly the unresolved names and
the missing `null` (`mem_missingPatterns`), and is empty exactly when the verdict is exhaustive
(`missingPatterns_eq_nil_iff`): the verdict checks `null` first and then the unresolved variants,
and both are listed. The sorting half rests on one fact about dropping repeats from a sorted list
(`pairwise_lt_dropRepeats`).

A coverage reached by a proof over a union `u` names each unresolved variant by the name `u` gives
it: the unresolved variants are some of `u`'s, and `u` lists each identity once
(`variantName?_of_mem`).

**The law** (`missing_patterns_explain_verdict`): the report of every coverage a prover over `u`
finishes with, and of every coverage `prove u` reports, is strictly increasing in the order of
UTF-8 bytes, consists of the names `u` gives the unresolved variants together with `null` when it
is missing, and is empty exactly when the verdict is exhaustive.
-/

namespace MatchCoverage

namespace Coverage

/-! ### Dropping repeats -/

theorem mem_dropRepeats {l : List String} {s : String} : s ∈ dropRepeats l ↔ s ∈ l := by
  induction l using dropRepeats.induct with
  | case1 b tail ih =>
    rw [dropRepeats, if_pos rfl, ih]
    simp
  | case2 a b tail differ ih =>
    rw [dropRepeats, if_neg differ, List.mem_cons, ih, ← List.mem_cons]
  | case3 l _ => rw [dropRepeats.eq_2 l ‹_›]

theorem dropRepeats_eq_nil_iff {l : List String} : dropRepeats l = [] ↔ l = [] := by
  rw [List.eq_nil_iff_forall_not_mem, List.eq_nil_iff_forall_not_mem]
  simp only [mem_dropRepeats]

/-- Dropping the repeats of a sorted list leaves it strictly increasing: in a sorted list equal
texts stand next to each other. -/
theorem pairwise_lt_dropRepeats {l : List String} (sorted : l.Pairwise (· ≤ ·)) :
    (dropRepeats l).Pairwise (· < ·) := by
  induction l using dropRepeats.induct with
  | case1 b tail ih =>
    rw [dropRepeats, if_pos rfl]
    exact ih (List.pairwise_cons.mp sorted).2
  | case2 a b tail differ ih =>
    rw [dropRepeats, if_neg differ]
    obtain ⟨a_le, rest⟩ := List.pairwise_cons.mp sorted
    refine List.pairwise_cons.mpr ⟨fun x later => ?_, ih rest⟩
    have x_in : x ∈ b :: tail := mem_dropRepeats.mp later
    have b_le : b ≤ x := by
      rcases List.mem_cons.mp x_in with rfl | x_in
      · exact le_rfl
      · exact (List.pairwise_cons.mp rest).1 x x_in
    -- `a ≤ b ≤ x`, and `a = x` would force `a = b`
    refine lt_of_le_of_ne (a_le x x_in) fun same => differ ?_
    exact le_antisymm (a_le b List.mem_cons_self) (same ▸ b_le)
  | case3 l short =>
    rw [dropRepeats.eq_2 l short]
    -- a list with no two entries is strictly increasing
    match l, short with
    | [], _ => exact List.Pairwise.nil
    | [a], _ => exact List.pairwise_singleton _ a
    | a :: b :: tail, short => exact (short a b tail rfl).elim

/-! ### The report of any coverage -/

/-- What the report lists before sorting: the names of the unresolved variants, then `null` when
it is missing. -/
theorem missingPatterns_eq (c : Coverage) :
    c.missingPatterns = dropRepeats ((c.unresolved.map (·.name) ++
      (if c.missingNull then ["null"] else [])).mergeSort fun a b => decide (a ≤ b)) := rfl

theorem missingPatterns_sorted (c : Coverage) : c.missingPatterns.Pairwise (· < ·) := by
  rw [missingPatterns_eq]
  exact pairwise_lt_dropRepeats (List.pairwise_mergeSort' (· ≤ ·) _)

/-- The report is strictly increasing in the order of UTF-8 bytes. -/
theorem missingPatterns_sorted_bytes (c : Coverage) :
    c.missingPatterns.Pairwise fun a b => a.toUTF8.data.toList < b.toUTF8.data.toList :=
  c.missingPatterns_sorted.imp fun lt => (ByteOrder.lt_iff_utf8_lt _ _).mp lt

theorem mem_missingPatterns (c : Coverage) (s : String) :
    s ∈ c.missingPatterns ↔
      (∃ v ∈ c.unresolved, v.name = s) ∨ (c.missingNull = true ∧ s = "null") := by
  rw [missingPatterns_eq, mem_dropRepeats, List.mem_mergeSort, List.mem_append, List.mem_map]
  cases c.missingNull <;> simp [eq_comm]

theorem missingPatterns_eq_nil_iff (c : Coverage) :
    c.missingPatterns = [] ↔ c.verdict = .exhaustive := by
  rw [missingPatterns_eq, dropRepeats_eq_nil_iff, ← List.length_eq_zero_iff,
    List.length_mergeSort, List.length_eq_zero_iff, List.append_eq_nil_iff, List.map_eq_nil_iff,
    verdict_eq_exhaustive_iff]
  unfold missingNull
  cases c.nullable <;> cases c.nullHandled <;> simp [and_comm]

end Coverage

namespace ClosedUnion

/-- A union names each of its variants by the variant's own name, since it lists each identity
once. -/
theorem variantName?_of_mem {u : ClosedUnion} {w : Variant} (listed : w ∈ u.variants) :
    u.variantName? w.id = some w.name := by
  cases found : u.variants.find? (·.id == w.id) with
  | none =>
    have := List.find?_eq_none.mp found w listed
    simp at this
  | some x =>
    have x_listed := List.mem_of_find?_eq_some found
    have same : x.id = w.id := by simpa using List.find?_some found
    rw [variantName?, found, List.inj_on_of_nodup_map u.nodup x_listed listed same]
    rfl

end ClosedUnion

/-- The report of `c` over the union `u` explains its verdict: it is strictly increasing in the
order of UTF-8 bytes, so sorted and free of repeats; it holds the names `u` gives the unresolved
variants and `null` when it is missing, and nothing else; and it is empty exactly when the verdict
is exhaustive. -/
structure Coverage.Explained (c : Coverage) (u : ClosedUnion) : Prop where
  sorted : c.missingPatterns.Pairwise fun a b => a.toUTF8.data.toList < b.toUTF8.data.toList
  mem_iff : ∀ s, s ∈ c.missingPatterns ↔
    (∃ v ∈ c.unresolvedIds, u.variantName? v = some s) ∨ (c.missingNull = true ∧ s = "null")
  eq_nil_iff : c.missingPatterns = [] ↔ c.verdict = .exhaustive

/-- A coverage whose unresolved variants are some of `u`'s is explained by its report. -/
theorem Coverage.explained_of_subset {c : Coverage} {u : ClosedUnion}
    (within : ∀ w ∈ c.unresolved, w ∈ u.variants) : c.Explained u where
  sorted := c.missingPatterns_sorted_bytes
  mem_iff s := by
    rw [c.mem_missingPatterns]
    -- an unresolved variant is named by `u` as by itself
    have named : (∃ v ∈ c.unresolved, v.name = s) ↔
        ∃ v ∈ c.unresolvedIds, u.variantName? v = some s := by
      constructor
      · rintro ⟨w, hw, rfl⟩
        exact ⟨w.id, List.mem_map_of_mem hw, ClosedUnion.variantName?_of_mem (within w hw)⟩
      · rintro ⟨v, hv, hs⟩
        obtain ⟨w, hw, rfl⟩ := List.mem_map.mp hv
        rw [ClosedUnion.variantName?_of_mem (within w hw), Option.some.injEq] at hs
        exact ⟨w, hw, hs⟩
    rw [named]
  eq_nil_iff := c.missingPatterns_eq_nil_iff

/-- **The report of missing patterns explains exactly the non-exhaustive verdicts.** For every
prover over a union `u`, and for every match proved over `u`, the report of the coverage is
strictly increasing in the order of UTF-8 bytes, so sorted and free of repeats; its texts are
the names `u` gives the unresolved variants, and `null` when the subject may be `null` and no arm
handles it; and it is empty exactly when the verdict is exhaustive. -/
theorem missing_patterns_explain_verdict :
    (∀ (p : Prover) (nullable : Bool), (p.finish nullable).Explained p.union) ∧
    ∀ (u : ClosedUnion) (m : MatchConstruct), (prove u m).Explained u := by
  have finished : ∀ (p : Prover) (nullable : Bool), (p.finish nullable).Explained p.union :=
    fun p _ => Coverage.explained_of_subset fun _ hw => p.sublist.subset hw
  refine ⟨finished, fun u m => ?_⟩
  have explained := finished ((Prover.new u).applyArms m.arms) m.nullable
  rw [(Prover.reflects_applyArms_new u m.arms).union_eq] at explained
  exact explained

end MatchCoverage
