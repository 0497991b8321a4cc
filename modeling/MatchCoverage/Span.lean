/-!
# Source spans

A `Span` is a range of byte offsets, each a 32-bit word, from `start` up to but excluding `stop`.
Spans identify a reported diagnostic occurrence and the arms of the match it points at; nothing
here reads source text.

Nothing forces the bounds into order. A span whose start lies past its stop is *inverted*: it
covers no byte, its length is `0`, and every operation below treats it as the pair of words it is.

## Main definitions

* `Span.len`: the number of bytes covered, saturating at `0` for an inverted span.
* `Span.merge`: the least span, under containment, that contains both arguments.
* `Span.Contains`: one span's bounds lie inside another's.
* `Span.ofRange?`: a span from two offsets of any size, refusing an offset that does not fit a word.
-/

namespace MatchCoverage

/-- A range of byte offsets, from `start` up to but excluding `stop`. -/
structure Span where
  /-- The offset of the first byte. -/
  start : UInt32
  /-- The offset just past the last byte. -/
  stop : UInt32
deriving DecidableEq, Repr, Hashable

namespace Span

/-- The empty span at offset zero, for arms that carry no location. -/
def dummy : Span := ⟨0, 0⟩

/-- The number of bytes covered: the distance from start to stop, or `0` when inverted. -/
def len (s : Span) : UInt32 :=
  if s.start ≤ s.stop then s.stop - s.start else 0

/-- A span is empty when it covers no byte: its start is not below its stop. -/
def isEmpty (s : Span) : Bool :=
  decide (s.stop ≤ s.start)

/-- The smaller start and the larger stop of two spans: the least span that contains both. -/
def merge (a b : Span) : Span :=
  ⟨min a.start b.start, max a.stop b.stop⟩

@[simp] theorem merge_start (a b : Span) : (a.merge b).start = min a.start b.start := rfl

@[simp] theorem merge_stop (a b : Span) : (a.merge b).stop = max a.stop b.stop := rfl

/-- `a` contains `b` when `b` starts no earlier and stops no later than `a`. -/
def Contains (a b : Span) : Prop :=
  a.start ≤ b.start ∧ b.stop ≤ a.stop

theorem contains_iff (a b : Span) : a.Contains b ↔ a.start ≤ b.start ∧ b.stop ≤ a.stop :=
  Iff.rfl

instance (a b : Span) : Decidable (a.Contains b) :=
  inferInstanceAs (Decidable (a.start ≤ b.start ∧ b.stop ≤ a.stop))

/-- Spans are ordered by start, and spans of one start by stop. -/
protected def compare (a b : Span) : Ordering :=
  (compare a.start b.start).then (compare a.stop b.stop)

instance : Ord Span := ⟨Span.compare⟩

/-- The text of a span: its two bounds in decimal, joined by two dots. -/
def render (s : Span) : String :=
  toString s.start ++ ".." ++ toString s.stop

instance : ToString Span := ⟨render⟩

/-- The largest offset a span can hold. -/
def maxOffset : Nat := 4294967295

/-- Why two offsets make no span: one of them does not fit a 32-bit word. -/
inductive RangeError where
  /-- The start offset is too large. -/
  | startTooLarge (offset : Nat)
  /-- The stop offset is too large. -/
  | endTooLarge (offset : Nat)
deriving DecidableEq, Repr

/-- The message of a range error, naming the offset and the largest one allowed. -/
def RangeError.message : RangeError → String
  | .startTooLarge n => "span start " ++ toString n ++ " exceeds u32::MAX (" ++ toString maxOffset ++ ")"
  | .endTooLarge n => "span end " ++ toString n ++ " exceeds u32::MAX (" ++ toString maxOffset ++ ")"

/-- The span from `start` to `stop`; the start is checked first, so it is the one reported when
neither fits. -/
def ofRange? (start stop : Nat) : Except RangeError Span :=
  if maxOffset < start then .error (.startTooLarge start)
  else if maxOffset < stop then .error (.endTooLarge stop)
  else .ok ⟨start.toUInt32, stop.toUInt32⟩

example : (⟨5, 3⟩ : Span).len = 0 ∧ (⟨3, 5⟩ : Span).len = 2 := by decide

example : merge ⟨5, 3⟩ ⟨10, 20⟩ = ⟨5, 20⟩ := by decide

end Span

end MatchCoverage
