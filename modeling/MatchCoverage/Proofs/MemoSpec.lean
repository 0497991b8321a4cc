import MatchCoverage.Pattern.Memo

/-!
# Remembered answers change nothing

A context answers repeated deconstruction questions from its memo. This is sound only if every
recorded answer is the one the question would get afresh, for the very variant and arity it is
recorded under. That is the invariant `Memo.Agrees`: the empty memo has it, and asking through
the memo keeps it, because a miss records the host's answer after the length filter under the key
it was asked with (`Memo.Agrees.record`).

Under the invariant every memoized computation answers as its fresh counterpart and hands on a memo
that still agrees (`Context.Answers`). One question answers as `Context.deconstruction`
(`answers_deconstructionMemo`); by induction on the pattern, following the mutual recursion of the
classifier, a classification answers as `Context.classify` (`answers_classifyMemo`); by induction on
the arms, a match answers as `Context.classifyConstruct` (`answers_classifyConstructMemo`).

**The law** (`memo_agrees_with_host`): after any sequence of uses of a fresh context (questions,
classifications of patterns, classifications of matches), a deconstruction question is answered
with the host's answer refused unless it has the length asked, so every answer given has that
length; and a pattern or a match classifies exactly as on a fresh context, which is the
classification with every question put to the host afresh. So arms classify alike in any order and
in any context.
-/

namespace MatchCoverage

namespace Memo

/-- Every answer the memo records is the one a fresh context gives to the question it is recorded
under. -/
def Agrees (m : Memo) (c : Context) : Prop :=
  ∀ v arity answer, m.find? v arity = some answer → answer = c.deconstruction v arity

theorem agrees_empty (c : Context) : empty.Agrees c := by
  intro v arity answer found
  simp [find?, empty] at found

theorem find?_record (m : Memo) (v : TypeId) (arity : Nat) (answer : Option (List Field))
    (w : TypeId) (n : Nat) :
    (m.record v arity answer).find? w n = if w = v ∧ n = arity then some answer else m.find? w n := by
  simp only [find?, record, List.lookup_cons]
  by_cases same : w = v ∧ n = arity
  · obtain ⟨rfl, rfl⟩ := same
    simp
  · have differ : ((w, n) == (v, arity)) = false := by
      simp only [beq_eq_false_iff_ne, ne_eq, Prod.mk.injEq]
      exact same
    rw [differ, if_neg same]

/-- Recording the fresh answer under the question it answers keeps the memo agreeing. -/
theorem Agrees.record {m : Memo} {c : Context} (h : m.Agrees c) (v : TypeId) (arity : Nat) :
    (m.record v arity (c.deconstruction v arity)).Agrees c := by
  intro w n answer found
  rw [find?_record] at found
  by_cases same : w = v ∧ n = arity
  · rw [if_pos same, Option.some.injEq] at found
    rw [← found, same.1, same.2]
  · rw [if_neg same] at found
    exact h w n answer found

end Memo

namespace Context

/-- A memoized computation `r` answers `x`, as its fresh counterpart does, and hands on a memo that
agrees with the host. -/
structure Answers {α : Type} (c : Context) (r : α × Memo) (x : α) : Prop where
  fst_eq : r.1 = x
  agrees : r.2.Agrees c

/-- Two computations that answer one value answer alike, whatever memos they hand on. -/
theorem Answers.fst_eq_fst {α : Type} {c : Context} {r s : α × Memo} {x : α}
    (hr : c.Answers r x) (hs : c.Answers s x) : r.1 = s.1 :=
  hr.fst_eq.trans hs.fst_eq.symm

/-- A computation that does not touch the memo answers as it should. -/
theorem answers_of_agrees {α : Type} {c : Context} {m : Memo} (h : m.Agrees c) (x : α) :
    c.Answers (x, m) x :=
  ⟨rfl, h⟩

/-- A question asked through an agreeing memo gets the fresh answer. -/
theorem answers_deconstructionMemo {c : Context} {m : Memo} (h : m.Agrees c) (v : TypeId)
    (arity : Nat) : c.Answers (c.deconstructionMemo m v arity) (c.deconstruction v arity) := by
  unfold deconstructionMemo
  cases found : m.find? v arity with
  | some answer => exact ⟨h v arity answer found, h⟩
  | none => exact ⟨rfl, h.record v arity⟩

theorem answers_classifyRecordMemo {c : Context} {m : Memo} (h : m.Agrees c) (ty : Option TypeId)
    (positional : Option (List HostPattern)) (properties : Option (List (String × HostPattern))) :
    c.Answers (c.classifyRecordMemo m ty positional properties)
      (c.classifyRecord ty positional properties) := by
  unfold classifyRecordMemo classifyRecord
  cases ty.bind c.variantOf? with
  | none => exact answers_of_agrees h _
  | some v =>
    cases positional with
    | none => cases properties <;> exact answers_of_agrees h _
    | some subs =>
      cases properties with
      | some _ => exact answers_of_agrees h _
      | none =>
        -- the only question: the deconstruction of the positional list's length
        obtain ⟨fst_eq, agrees⟩ := answers_deconstructionMemo h v subs.length
        simp only [fst_eq]
        cases c.deconstruction v subs.length <;> exact ⟨rfl, agrees⟩

mutual

/-- Classifying through an agreeing memo answers as a fresh context, by induction on the pattern. -/
theorem answers_classifyMemo (c : Context) :
    (p : HostPattern) → (m : Memo) → m.Agrees c → c.Answers (c.classifyMemo p m) (c.classify p)
  | .discard, m, h | .binding _, m, h | .relational _ _, m, h | .allOf _, m, h
  | .negation _, m, h | .list _, m, h | .other, m, h => answers_of_agrees h _
  | .constant k, m, h => by cases k <;> exact answers_of_agrees h _
  | .typeTest t, m, h | .declaration t _, m, h => by
    simp only [classifyMemo, classify]
    cases c.variantOf? t <;> exact answers_of_agrees h _
  | .record ty positional properties _, m, h => answers_classifyRecordMemo h ty positional properties
  | .anyOf alts, m, h => by
    obtain ⟨fst_eq, agrees⟩ := answers_classifyAllMemo c alts m h
    exact ⟨by rw [classifyMemo, classify, ← fst_eq], agrees⟩

/-- Classifying alternatives through an agreeing memo answers as a fresh context. -/
theorem answers_classifyAllMemo (c : Context) :
    (ps : List HostPattern) → (m : Memo) → m.Agrees c →
      c.Answers (c.classifyAllMemo ps m) (c.classifyAll ps)
  | [], m, h => answers_of_agrees h _
  | p :: ps, m, h => by
    -- the memo left by the first alternative is the one the rest start from
    obtain ⟨first_eq, first_agrees⟩ := answers_classifyMemo c p m h
    obtain ⟨rest_eq, rest_agrees⟩ := answers_classifyAllMemo c ps _ first_agrees
    exact ⟨by rw [classifyAllMemo, classifyAll, ← first_eq, ← rest_eq], rest_agrees⟩

end

/-- Classifying arms through an agreeing memo answers as a fresh context, arm by arm. -/
theorem answers_classifyArmsMemo (c : Context) (index : Nat) (arms : List HostArm) (m : Memo)
    (h : m.Agrees c) :
    c.Answers (c.classifyArmsMemo index arms m)
      (arms.mapIdx fun i arm => c.classifyArm (index + i) arm) := by
  induction arms generalizing index m with
  | nil => exact answers_of_agrees h _
  | cons arm arms ih =>
    obtain ⟨first_eq, first_agrees⟩ := answers_classifyMemo c arm.pattern m h
    obtain ⟨rest_eq, rest_agrees⟩ := ih (index + 1) _ first_agrees
    refine ⟨?_, rest_agrees⟩
    rw [classifyArmsMemo, List.mapIdx_cons]
    dsimp only
    rw [rest_eq, first_eq, Nat.add_zero]
    congr 1
    -- the rest start one position further on
    congr 1
    funext i arm
    rw [Nat.add_assoc, Nat.add_comm 1 i]

theorem answers_classifyConstructMemo (c : Context) (nullable : Bool) (arms : List HostArm)
    (m : Memo) (h : m.Agrees c) :
    c.Answers (c.classifyConstructMemo nullable arms m) (c.classifyConstruct nullable arms) := by
  obtain ⟨fst_eq, agrees⟩ := answers_classifyArmsMemo c 0 arms m h
  refine ⟨?_, agrees⟩
  rw [classifyConstructMemo, classifyConstruct, fst_eq]
  simp only [Nat.zero_add]

end Context

/-- One use of a context: a deconstruction question, the classification of a pattern, or the
classification of the arms of a match. -/
inductive ContextUse where
  | deconstruction (v : TypeId) (arity : Nat)
  | classify (p : HostPattern)
  | classifyConstruct (nullable : Bool) (arms : List HostArm)

namespace ContextUse

/-- The memo after one use. -/
def perform (c : Context) (m : Memo) : ContextUse → Memo
  | .deconstruction v arity => (c.deconstructionMemo m v arity).2
  | .classify p => (c.classifyMemo p m).2
  | .classifyConstruct nullable arms => (c.classifyConstructMemo nullable arms m).2

/-- One use keeps the memo agreeing. -/
theorem agrees_perform {c : Context} {m : Memo} (h : m.Agrees c) :
    (use : ContextUse) → (use.perform c m).Agrees c
  | .deconstruction v arity => (Context.answers_deconstructionMemo h v arity).agrees
  | .classify p => (Context.answers_classifyMemo c p m h).agrees
  | .classifyConstruct nullable arms =>
    (Context.answers_classifyConstructMemo c nullable arms m h).agrees

end ContextUse

/-- The memo of a fresh context after the uses, in order. -/
def Context.memoAfter (c : Context) (uses : List ContextUse) : Memo :=
  uses.foldl (ContextUse.perform c) Memo.empty

/-- Every sequence of uses leaves the memo agreeing with the host. -/
theorem Context.agrees_memoAfter (c : Context) (uses : List ContextUse) :
    (c.memoAfter uses).Agrees c := by
  suffices run : ∀ m : Memo, m.Agrees c → (uses.foldl (ContextUse.perform c) m).Agrees c from
    run Memo.empty (Memo.agrees_empty c)
  induction uses with
  | nil => exact fun _ h => h
  | cons use uses ih => exact fun m h => ih _ (ContextUse.agrees_perform h use)

/-- **A context's memo agrees with the host on every sequence of questions.** After any uses of a
fresh context, a deconstruction question is answered with the host's answer refused unless it has
exactly the length asked, so any answer given has that length; and classifying a pattern, or the
arms of a match, gives what it gives on a fresh context, which is the classification that puts
every question to the host afresh. -/
theorem memo_agrees_with_host (c : Context) (uses : List ContextUse) :
    let m := c.memoAfter uses
    (∀ v arity, (c.deconstructionMemo m v arity).1 =
      (c.host.deconstruction v arity).filter (·.length == arity)) ∧
    (∀ v arity fields, (c.deconstructionMemo m v arity).1 = some fields → fields.length = arity) ∧
    (∀ p, (c.classifyMemo p m).1 = (c.classifyMemo p Memo.empty).1) ∧
    (∀ p, (c.classifyMemo p m).1 = c.classify p) ∧
    (∀ nullable arms, (c.classifyConstructMemo nullable arms m).1 =
      (c.classifyConstructMemo nullable arms Memo.empty).1) ∧
    (∀ nullable arms, (c.classifyConstructMemo nullable arms m).1 =
      c.classifyConstruct nullable arms) := by
  intro m
  have agrees : m.Agrees c := c.agrees_memoAfter uses
  have fresh := Memo.agrees_empty c
  have asked : ∀ v arity, (c.deconstructionMemo m v arity).1 =
      (c.host.deconstruction v arity).filter (·.length == arity) :=
    fun v arity => (Context.answers_deconstructionMemo agrees v arity).fst_eq
  -- memoized classification answers as the fresh one from any agreeing memo, the empty one too
  refine ⟨asked, fun v arity fields found => ?_,
    fun p => (c.answers_classifyMemo p m agrees).fst_eq_fst (c.answers_classifyMemo p _ fresh),
    fun p => (c.answers_classifyMemo p m agrees).fst_eq,
    fun nullable arms => (c.answers_classifyConstructMemo nullable arms m agrees).fst_eq_fst
      (c.answers_classifyConstructMemo nullable arms _ fresh),
    fun nullable arms => (c.answers_classifyConstructMemo nullable arms m agrees).fst_eq⟩
  rw [asked, Option.filter_eq_some_iff] at found
  simpa using found.2

end MatchCoverage
