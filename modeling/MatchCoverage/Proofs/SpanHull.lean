import MatchCoverage.Span

/-!
# The merge of two spans is their least upper bound

Containment orders spans: `a.Contains b` when `b`'s bounds lie inside `a`'s. On every pair of
words, inverted spans included, it is a partial order, and `Span.merge` is its least upper bound:
a span contains the merge of two spans exactly when it contains both (`contains_merge_iff`).

The algebra of merging follows from that one fact. Two spans that contain each other are equal,
so a span is fixed by the spans that contain it (`eq_of_contains_iff`); the spans that contain
`a.merge b` are those that contain `a` and `b`, in either order and with any grouping, so merging
is commutative, associative and idempotent.

Containment also bounds length, which saturates at `0`: a span covers no more bytes than any span
that contains it, and a span is empty exactly when its length is `0`.

**The law** (`merge_least_upper_bound`).
-/

namespace MatchCoverage

namespace Span

/-! ## Containment is a partial order -/

theorem contains_refl (a : Span) : a.Contains a :=
  ⟨UInt32.le_refl _, UInt32.le_refl _⟩

theorem Contains.trans {a b c : Span} (hab : a.Contains b) (hbc : b.Contains c) : a.Contains c :=
  ⟨UInt32.le_trans hab.1 hbc.1, UInt32.le_trans hbc.2 hab.2⟩

theorem Contains.antisymm {a b : Span} (hab : a.Contains b) (hba : b.Contains a) : a = b := by
  have start_eq : a.start = b.start := UInt32.le_antisymm hab.1 hba.1
  have stop_eq : a.stop = b.stop := UInt32.le_antisymm hba.2 hab.2
  cases a
  cases b
  simp only at start_eq stop_eq
  rw [start_eq, stop_eq]

/-- A span is determined by the spans that contain it. -/
theorem eq_of_contains_iff {a b : Span} (h : ∀ c : Span, c.Contains a ↔ c.Contains b) : a = b :=
  Contains.antisymm ((h a).mp (contains_refl a)) ((h b).mpr (contains_refl b))

/-! ## Merging is the least upper bound -/

-- The word order has no lawful `max` instance to cite, so the bound is proved from `max`'s
-- definition.
private theorem max_le_iff_bounds {a b c : UInt32} : max a b ≤ c ↔ a ≤ c ∧ b ≤ c := by
  show (if a ≤ b then b else a) ≤ c ↔ _
  split <;> grind [UInt32.le_trans, UInt32.le_total]

/-- A span contains a merge exactly when it contains both merged spans. -/
theorem contains_merge_iff (a b c : Span) :
    c.Contains (a.merge b) ↔ c.Contains a ∧ c.Contains b := by
  rw [contains_iff, merge_start, merge_stop, Std.le_min_iff, max_le_iff_bounds, contains_iff,
    contains_iff]
  constructor
  · rintro ⟨⟨start_a, start_b⟩, stop_a, stop_b⟩
    exact ⟨⟨start_a, stop_a⟩, start_b, stop_b⟩
  · rintro ⟨⟨start_a, stop_a⟩, start_b, stop_b⟩
    exact ⟨⟨start_a, start_b⟩, stop_a, stop_b⟩

theorem merge_contains_left (a b : Span) : (a.merge b).Contains a :=
  ((contains_merge_iff a b _).mp (contains_refl _)).1

theorem merge_contains_right (a b : Span) : (a.merge b).Contains b :=
  ((contains_merge_iff a b _).mp (contains_refl _)).2

theorem merge_comm (a b : Span) : a.merge b = b.merge a :=
  eq_of_contains_iff fun c => by rw [contains_merge_iff, contains_merge_iff, and_comm]

theorem merge_assoc (a b c : Span) : (a.merge b).merge c = a.merge (b.merge c) :=
  eq_of_contains_iff fun d => by simp only [contains_merge_iff, and_assoc]

theorem merge_self (a : Span) : a.merge a = a :=
  eq_of_contains_iff fun c => by rw [contains_merge_iff, and_self]

/-! ## Length -/

/-- The length of a span is the distance from its start to its stop, saturating at `0`. -/
theorem toNat_len (s : Span) : s.len.toNat = s.stop.toNat - s.start.toNat := by
  unfold len
  split
  · exact UInt32.toNat_sub_of_le _ _ ‹_›
  · have inverted : s.stop.toNat < s.start.toNat := by
      rw [← UInt32.lt_iff_toNat_lt]
      exact UInt32.not_le.mp ‹_›
    rw [UInt32.toNat_zero]
    omega

theorem len_le_of_contains {a b : Span} (h : a.Contains b) : b.len ≤ a.len := by
  have starts := UInt32.le_iff_toNat_le.mp h.1
  have stops := UInt32.le_iff_toNat_le.mp h.2
  rw [UInt32.le_iff_toNat_le, toNat_len, toNat_len]
  omega

theorem isEmpty_iff_len_eq_zero (s : Span) : s.isEmpty = true ↔ s.len = 0 := by
  rw [isEmpty, decide_eq_true_iff, UInt32.le_iff_toNat_le, ← UInt32.toNat_inj, toNat_len,
    UInt32.toNat_zero]
  omega

/-- **Merging is the least upper bound for containment**, over all spans, inverted ones
included: containment is reflexive, transitive and antisymmetric; a merge contains both spans and
lies inside every span that contains both; merging is commutative, associative and idempotent; a
contained span is no longer than its container; and a span is empty exactly when its length is
`0`. -/
theorem merge_least_upper_bound :
    (∀ a : Span, a.Contains a) ∧
    (∀ a b c : Span, a.Contains b → b.Contains c → a.Contains c) ∧
    (∀ a b : Span, a.Contains b → b.Contains a → a = b) ∧
    (∀ a b : Span, (a.merge b).Contains a ∧ (a.merge b).Contains b) ∧
    (∀ a b c : Span, c.Contains a → c.Contains b → c.Contains (a.merge b)) ∧
    (∀ a b : Span, a.merge b = b.merge a) ∧
    (∀ a b c : Span, (a.merge b).merge c = a.merge (b.merge c)) ∧
    (∀ a : Span, a.merge a = a) ∧
    (∀ a b : Span, a.Contains b → b.len ≤ a.len) ∧
    (∀ a : Span, a.isEmpty = true ↔ a.len = 0) :=
  ⟨contains_refl, fun _ _ _ => Contains.trans, fun _ _ => Contains.antisymm,
    fun a b => ⟨merge_contains_left a b, merge_contains_right a b⟩,
    fun a b c hca hcb => (contains_merge_iff a b c).mpr ⟨hca, hcb⟩, merge_comm, merge_assoc,
    merge_self, fun _ _ => len_le_of_contains, isEmpty_iff_len_eq_zero⟩

end Span

end MatchCoverage
