import Mathlib.Data.Finset.Card
import MatchCoverage.Interner

/-!
# The name table is a bijection onto a dense range of indices

An `Interner` keeps two tables: a map from strings to indices, which interning consults, and the
list of strings by index, which lookups read. They are kept inverse to each other
(`Interner.Inverse`): the map sends a string to an index exactly when the list holds that string
there. The table of the empty string is so (`inverse_empty`), and interning keeps it so
(`Inverse.intern`) in both of its cases: a known string changes nothing, and a new one enters both
tables under the same index. So every run ends in an inverse table (`Inverse.internAll`), and the
list of an inverse table repeats no string (`Inverse.nodup`).

In an inverse table interning changes the list in one way only (`Inverse.strings_intern`): a known
string leaves it as it was, a new one is appended. From this:

* the index interning answers names the string that was interned (`Inverse.getElem?_intern`), and
  every string already named keeps its name (`prefix_intern`);
* interning a string the table holds answers the index it already has and changes nothing
  (`Inverse.intern_of_getElem?`), which for the empty string is index `0` in every table that
  starts with it.

A run interns strings one after another from the table that holds only the empty string
(`Interner.internAll`); lookups and the size read the table and change nothing, so a run of
interns is every sequence of operations.

**The law** (`interning_is_dense_bijection`): after any run, two calls answered the same index
exactly when they interned the same string; the string at each answered index is the string
interned; each answered index is below the size; interning an interned string again answers the
same index and leaves the table as it is; the empty string is index `0`; the size is one more than
the number of distinct non-empty strings interned; and every index from the size on names the
empty string.
-/

namespace MatchCoverage

namespace Interner

/-! ### The two tables are inverse -/

/-- The map and the list of a table are inverse: the map sends a string to an index exactly when
the list holds that string at that index. -/
def Inverse (t : Interner) : Prop :=
  ∀ (s : String) (i : Nat), t.map[s]? = some i ↔ t.strings[i]? = some s

theorem inverse_empty : empty.Inverse := by
  intro s i
  simp only [empty, Std.HashMap.getElem?_insert, Std.HashMap.getElem?_empty, beq_iff_eq,
    List.getElem?_singleton]
  by_cases same : s = ""
  · subst same
    by_cases first : i = 0 <;> simp [first, eq_comm]
  · simp [Ne.symm same]

section Inverse

variable {t : Interner} (h : t.Inverse)
include h

/-- An inverse table holds no string twice: two indices of one string would both be its index. -/
theorem Inverse.nodup : t.strings.Nodup := by
  rw [List.nodup_iff_getElem?_ne_getElem?]
  intro i j earlier within same
  have at_j : t.strings[j]? = some t.strings[j] := List.getElem?_eq_getElem within
  have index_i := (h _ i).mpr (same.trans at_j)
  have index_j := (h _ j).mpr at_j
  have := Option.some_inj.mp (index_i.symm.trans index_j)
  omega

theorem Inverse.indexOf?_eq_some {s : String} {i : Nat} (found : t.strings[i]? = some s) :
    t.indexOf? s = some i :=
  (h s i).mpr found

theorem Inverse.indexOf?_eq_none_iff (s : String) : t.indexOf? s = none ↔ s ∉ t.strings := by
  rw [List.mem_iff_getElem?, not_exists, Option.eq_none_iff_forall_ne_some]
  exact forall_congr' fun i => not_congr (h s i)

/-- Interning a string the table holds at index `i` answers `i` and changes nothing. -/
theorem Inverse.intern_of_getElem? {s : String} {i : Nat} (found : t.strings[i]? = some s) :
    t.intern s = (i, t) :=
  intern_of_indexOf?_eq_some t s i (h.indexOf?_eq_some found)

/-- Interning keeps the two tables inverse. -/
theorem Inverse.intern (s : String) : (t.intern s).2.Inverse := by
  cases known : t.indexOf? s with
  | some i =>
    rw [intern_of_indexOf?_eq_some t s i known]
    exact h
  | none =>
    rw [intern_of_indexOf?_eq_none t s known]
    have absent : s ∉ t.strings := (h.indexOf?_eq_none_iff s).mp known
    intro s' j
    simp only [map_push, strings_push, Std.HashMap.getElem?_insert, beq_iff_eq]
    -- the new string sits at the old length in both tables; below it the list is unchanged
    by_cases below : j < t.strings.length
    · rw [List.getElem?_append_left below]
      by_cases same : s = s'
      · subst same
        have unlisted : t.strings[j]? ≠ some s := fun listed =>
          absent (List.mem_iff_getElem?.mpr ⟨j, listed⟩)
        simp [unlisted, Nat.ne_of_gt below]
      · simp [same, h s' j]
    · rw [List.getElem?_append_right (Nat.le_of_not_lt below), List.getElem?_singleton]
      have unmapped : t.map[s']? ≠ some j := fun mapped =>
        below (List.getElem?_eq_some_iff.mp ((h s' j).mp mapped)).1
      by_cases same : s = s' <;> by_cases last : j - t.strings.length = 0 <;>
        simp [same, last, unmapped] <;> omega

/-- Interning changes the strings in one way only: a new string is appended. -/
theorem Inverse.strings_intern (s : String) :
    (t.intern s).2.strings = if s ∈ t.strings then t.strings else t.strings ++ [s] := by
  by_cases known : s ∈ t.strings
  · obtain ⟨i, at_i⟩ := List.mem_iff_getElem?.mp known
    rw [if_pos known, h.intern_of_getElem? at_i]
  · rw [if_neg known, intern_of_indexOf?_eq_none t s ((h.indexOf?_eq_none_iff s).mpr known),
      strings_push]

/-- The index interning answers names the string that was interned. -/
theorem Inverse.getElem?_intern (s : String) :
    (t.intern s).2.strings[(t.intern s).1]? = some s := by
  cases known : t.indexOf? s with
  | some i =>
    rw [intern_of_indexOf?_eq_some t s i known]
    exact (h s i).mp known
  | none =>
    rw [intern_of_indexOf?_eq_none t s known, push_fst, strings_push]
    exact List.getElem?_concat_length

end Inverse

/-- An index keeps its string in every list that extends the list. -/
private theorem getElem?_of_prefix {l₁ l₂ : List String} (h : l₁ <+: l₂) {i : Nat} {s : String}
    (found : l₁[i]? = some s) : l₂[i]? = some s := by
  obtain ⟨within, rfl⟩ := List.getElem?_eq_some_iff.mp found
  exact List.prefix_iff_getElem?.mp h i within

theorem prefix_intern (t : Interner) (s : String) : t.strings <+: (t.intern s).2.strings := by
  cases known : t.indexOf? s with
  | some i => rw [intern_of_indexOf?_eq_some t s i known]
  | none =>
    rw [intern_of_indexOf?_eq_none t s known, strings_push]
    exact List.prefix_append _ _

theorem lookup_of_size_le {t : Interner} {i : Nat} (h : t.size ≤ i) : t.lookup i = "" := by
  rw [lookup, List.getElem?_eq_none h]
  rfl

/-! ### Runs -/

@[simp] theorem internAll_nil (t : Interner) : t.internAll [] = ([], t) := rfl

@[simp] theorem internAll_cons (t : Interner) (s : String) (ss : List String) :
    t.internAll (s :: ss) =
      ((t.intern s).1 :: ((t.intern s).2.internAll ss).1, ((t.intern s).2.internAll ss).2) := rfl

theorem length_internAll (t : Interner) (ss : List String) :
    (t.internAll ss).1.length = ss.length := by
  induction ss generalizing t with
  | nil => rfl
  | cons s ss ih => simp [ih]

/-- A run keeps the two tables inverse. -/
theorem Inverse.internAll {t : Interner} (h : t.Inverse) (ss : List String) :
    (t.internAll ss).2.Inverse := by
  induction ss generalizing t with
  | nil => exact h
  | cons s ss ih => exact ih (h.intern s)

/-- A run only ever appends: every index keeps its string. -/
theorem prefix_internAll (t : Interner) (ss : List String) :
    t.strings <+: (t.internAll ss).2.strings := by
  induction ss generalizing t with
  | nil => exact List.prefix_refl _
  | cons s ss ih => exact (prefix_intern t s).trans (ih _)

/-- After a run the table holds what it held and the strings interned, nothing else. -/
theorem Inverse.mem_internAll {t : Interner} (h : t.Inverse) (ss : List String) (s : String) :
    s ∈ (t.internAll ss).2.strings ↔ s ∈ t.strings ∨ s ∈ ss := by
  induction ss generalizing t with
  | nil => simp
  | cons x ss ih =>
    rw [internAll_cons, ih (h.intern x), h.strings_intern, List.mem_cons]
    split
    · next known => grind
    · rw [List.mem_append, List.mem_singleton]
      tauto

/-- Each call of a run answered the index at which the final table holds its string. -/
theorem Inverse.getElem?_internAll {t : Interner} (h : t.Inverse) (ss : List String) :
    ∀ call ∈ (t.internAll ss).1.zip ss, (t.internAll ss).2.strings[call.1]? = some call.2 := by
  induction ss generalizing t with
  | nil => simp
  | cons s ss ih =>
    intro call mem
    rw [internAll_cons, List.zip_cons_cons, List.mem_cons] at mem
    rcases mem with rfl | later
    · -- the first call's answer survives the rest of the run
      exact getElem?_of_prefix (prefix_internAll _ ss) (h.getElem?_intern s)
    · exact ih (h.intern s) call later

end Interner

/-- **Interning is a bijection onto a dense range.** After any run of interns from the table of
the empty string: two calls answered the same index exactly when they interned the same string;
each answered index is below the size, names the interned string, and interning that string again
answers it and leaves the table unchanged; the empty string is index `0`; the size is one more than
the number of distinct non-empty strings interned; and every index from the size on names the
empty string. -/
theorem interning_is_dense_bijection (ss : List String) :
    let run := Interner.empty.internAll ss
    run.1.length = ss.length ∧
    (∀ a ∈ run.1.zip ss, ∀ b ∈ run.1.zip ss, a.1 = b.1 ↔ a.2 = b.2) ∧
    (∀ a ∈ run.1.zip ss,
      run.2.lookup a.1 = a.2 ∧ a.1 < run.2.size ∧ run.2.intern a.2 = (a.1, run.2)) ∧
    run.2.intern "" = (0, run.2) ∧
    run.2.size = 1 + (ss.toFinset.erase "").card ∧
    ∀ i, run.2.size ≤ i → run.2.lookup i = "" := by
  intro run
  have inverse : run.2.Inverse := Interner.inverse_empty.internAll ss
  have found : ∀ call ∈ run.1.zip ss, run.2.strings[call.1]? = some call.2 :=
    Interner.inverse_empty.getElem?_internAll ss
  have nodup := inverse.nodup
  refine ⟨Interner.length_internAll _ ss, ?_, ?_, ?_, ?_, fun i => Interner.lookup_of_size_le⟩
  · intro a ha b hb
    constructor
    · intro same
      have := (found a ha).symm.trans (same ▸ found b hb)
      exact Option.some_inj.mp this
    · intro same
      have := (found a ha).trans (same ▸ (found b hb).symm)
      exact (List.getElem?_inj (List.getElem?_eq_some_iff.mp (found a ha)).1 nodup).mp this
  · intro a ha
    have at_a := found a ha
    refine ⟨by rw [Interner.lookup, at_a]; rfl, ?_, inverse.intern_of_getElem? at_a⟩
    exact (List.getElem?_eq_some_iff.mp at_a).1
  · -- the empty string stays at the front of every run
    apply inverse.intern_of_getElem?
    exact Interner.getElem?_of_prefix (Interner.prefix_internAll Interner.empty ss) rfl
  · have members : run.2.strings.toFinset = insert "" ss.toFinset := by
      ext s
      simp only [run, List.mem_toFinset, Finset.mem_insert]
      rw [Interner.inverse_empty.mem_internAll ss s]
      simp [Interner.empty]
    have card : run.2.size = (insert "" ss.toFinset).card := by
      rw [← members, List.toFinset_card_of_nodup nodup]
      rfl
    rw [card, ← Finset.card_erase_add_one (Finset.mem_insert_self "" _),
      Finset.erase_insert_eq_erase, Nat.add_comm]

end MatchCoverage
