import Std.Data.HashMap

/-!
# Name table

An `Interner` gives each distinct string a dense index, in the order the strings were first seen.
The empty string is present from the start, at index `0`, so that a name that was never given
still has an index. It keeps two tables: a map from each string it holds to its index, which
interning consults, and the strings in index order, which lookups read. A new string goes at the
end of the list and into the map under the next index. That the two tables stay inverse to each
other, so that an index names exactly one string, is proved of every run, not built into the type.

Looking up an index past the end gives the empty string, the name of nothing. Lookups and the
size only read the table, so a run of operations is its interns, in order (`internAll`).

An index is a 32-bit word in the source, so a table can hold at most `maxIndex + 1` strings:
`tryIntern` refuses a new string past that with the overflow error. `intern` is the unchecked
form, the one every table below that size answers alike (`tryIntern_eq_ok`).
-/

namespace MatchCoverage

/-- A table of strings, each named by its position, with the index of each string it holds. -/
structure Interner where
  /-- The index of each string held. -/
  map : Std.HashMap String Nat
  /-- The strings, by index. -/
  strings : List String

namespace Interner

/-- The table that holds only the empty string, at index `0`. -/
def empty : Interner := ⟨(∅ : Std.HashMap String Nat).insert "" 0, [""]⟩

/-- The index of a string, if the table holds it. -/
def indexOf? (t : Interner) (s : String) : Option Nat :=
  t.map[s]?

/-- Adds a string at the end, under the next index, and answers that index. -/
def push (t : Interner) (s : String) : Nat × Interner :=
  (t.strings.length, ⟨t.map.insert s t.strings.length, t.strings ++ [s]⟩)

@[simp] theorem push_fst (t : Interner) (s : String) : (t.push s).1 = t.strings.length := rfl

@[simp] theorem map_push (t : Interner) (s : String) :
    (t.push s).2.map = t.map.insert s t.strings.length := rfl

@[simp] theorem strings_push (t : Interner) (s : String) :
    (t.push s).2.strings = t.strings ++ [s] := rfl

/-- Gives the index of `s`, adding it at the end when it is new; a known string keeps its index
and leaves the table as it was. -/
def intern (t : Interner) (s : String) : Nat × Interner :=
  match t.indexOf? s with
  | some i => (i, t)
  | none => t.push s

/-- The largest index a 32-bit name can hold. -/
def maxIndex : Nat := 4294967295

/-- Why a string cannot be interned: the table already holds as many strings as there are
indices. -/
inductive InternError where
  /-- The table holds `count` strings, one more than the largest index. -/
  | overflow (count : Nat)
deriving DecidableEq, Repr

/-- The message of an interning failure, naming the count and the largest index. -/
def InternError.message : InternError → String
  | .overflow count =>
    "interner exceeded capacity: " ++ toString count ++ " strings, max is " ++ toString maxIndex

/-- Interns `s` as `intern` does, but refuses a new string whose index would not fit a word. -/
def tryIntern (t : Interner) (s : String) : Except InternError (Nat × Interner) :=
  match t.indexOf? s with
  | some i => .ok (i, t)
  | none => if maxIndex < t.strings.length then .error (.overflow t.strings.length) else .ok (t.push s)

/-- Interning a string the table holds answers its index and changes nothing. -/
theorem intern_of_indexOf?_eq_some (t : Interner) (s : String) (i : Nat)
    (h : t.indexOf? s = some i) : t.intern s = (i, t) := by
  rw [intern, h]

/-- Interning a new string answers the old size and adds the string at the end. -/
theorem intern_of_indexOf?_eq_none (t : Interner) (s : String) (h : t.indexOf? s = none) :
    t.intern s = t.push s := by
  rw [intern, h]

/-- Below the capacity the checked and the unchecked interning agree. -/
theorem tryIntern_eq_ok (t : Interner) (s : String) (h : t.strings.length ≤ maxIndex) :
    t.tryIntern s = .ok (t.intern s) := by
  unfold tryIntern intern
  split
  · rfl
  · rw [if_neg (Nat.not_lt.mpr h)]

/-- Interns the strings in order: answers the index each one got, and the table after the last. -/
def internAll (t : Interner) : List String → List Nat × Interner
  | [] => ([], t)
  | s :: ss =>
    let step := t.intern s
    let rest := step.2.internAll ss
    (step.1 :: rest.1, rest.2)

/-- The string at an index, or the empty string past the end. -/
def lookup (t : Interner) (i : Nat) : String :=
  t.strings[i]?.getD ""

/-- The number of strings held, the empty string included. -/
def size (t : Interner) : Nat :=
  t.strings.length

/-- A table is never empty: it holds at least the empty string. -/
def isEmpty (_ : Interner) : Bool :=
  false

end Interner

end MatchCoverage
