import MatchCoverage.Gate.Basic

/-!
# The gate's contract

A gate answers each diagnostic on its own and forwards only suppressions. Three things are owed to
a caller, and this module proves them for every host, source of match sites, configuration and
batch:

* **the decision ladder** (`decision_of_ruleFor?_eq_none` … `decision_of_resolve_ok`): the
  checks run in a fixed order, a rule for the code, then a match site, then a closed union with
  variants, then the proof, and the first that fails names the decision. A union that the host
  reports with no variants is declined as `noVariants` even though the host answered `ok`: zero
  arms would otherwise prove an empty union exhaustive. Read together, the ladder says exactly when
  a diagnostic is suppressed (`decision_eq_suppress_iff`).
* **the sink** (`exists_suppressions_runBatch`): a batch hands its sink, whatever it is, one
  suppression for each diagnostic decided `suppress` and for no other, in input order, each under
  the rule its code has.
  The decision checks for a rule and forwarding looks it up again; they agree because a suppressed
  diagnostic has one (`ruleFor?_of_decision_eq_suppress`).
* **the batch is the sequence** (`runBatch_eq_runEach`): deciding a whole batch first and
  forwarding afterwards gives the decisions and the sink that running the diagnostics one after
  another gives, and one run is the batch of one.

**The law** (`gate_contract`) states the three together.
-/

namespace MatchCoverage

namespace Gate

namespace Config

/-- A code has a rule exactly when it is a completeness code and some rule is listed for it. -/
theorem isSome_ruleFor?_iff (c : Config) (code : Code) :
    (c.ruleFor? code).isSome = true ↔ code.isCompleteness = true ∧ ∃ r ∈ c.rules, r.code = code := by
  unfold ruleFor?
  cases code.isCompleteness <;> simp

end Config

section Ladder

variable {g : Gate} {d : Diagnostic}

theorem decision_of_ruleFor?_eq_none (h : g.config.ruleFor? d.code = none) :
    g.decision d = .decline (.notSuppressible d.code) := by
  simp [decision, h]

theorem decision_of_source_eq_none {r : SuppressionRule} (hr : g.config.ruleFor? d.code = some r)
    (hs : g.source d = none) : g.decision d = .decline .noMatchSite := by
  simp [decision, hr, hs]

theorem decision_of_resolve_error {r : SuppressionRule} {site : MatchSite} {e : ResolveError}
    (hr : g.config.ruleFor? d.code = some r) (hs : g.source d = some site)
    (he : g.host.resolve site.subject = .error e) : g.decision d = .decline (.metadata e) := by
  simp [decision, hr, hs, he]

/-- A union the host reports without variants is declined, though the host answered `ok`. -/
theorem decision_of_resolve_empty {r : SuppressionRule} {site : MatchSite} {u : ClosedUnion}
    (hr : g.config.ruleFor? d.code = some r) (hs : g.source d = some site)
    (hu : g.host.resolve site.subject = .ok u) (empty : u.variants = []) :
    g.decision d = .decline (.metadata (.noVariants site.subject)) := by
  simp [decision, hr, hs, hu, ClosedUnion.isEmpty, empty]

/-- Past every check, the proof decides: suppress when exhaustive, else keep its coverage. -/
theorem decision_of_resolve_ok {r : SuppressionRule} {site : MatchSite} {u : ClosedUnion}
    (hr : g.config.ruleFor? d.code = some r) (hs : g.source d = some site)
    (hu : g.host.resolve site.subject = .ok u) (nonempty : u.variants ≠ []) :
    g.decision d = if (g.coverageOf u site).verdict = .exhaustive then .suppress
      else .keep (g.coverageOf u site) := by
  have listed : u.isEmpty = false := by simpa [ClosedUnion.isEmpty] using nonempty
  simp only [decision, hr, hs, hu, listed, Coverage.isExhaustive_eq_true_iff]
  rfl

end Ladder

/-- A suppressed diagnostic has a rule for its code: the check of `decision` and the lookup of
`forward` meet. -/
theorem ruleFor?_of_decision_eq_suppress {g : Gate} {d : Diagnostic}
    (h : g.decision d = .suppress) : ∃ r, g.config.ruleFor? d.code = some r := by
  cases hr : g.config.ruleFor? d.code with
  | none =>
    rw [decision_of_ruleFor?_eq_none hr] at h
    cases h
  | some r => exact ⟨r, rfl⟩

/-- A diagnostic is suppressed exactly when its code is a completeness code with a rule, it points
at a match, the subject resolves to a union with variants, and the arms are proved exhaustive. -/
theorem decision_eq_suppress_iff (g : Gate) (d : Diagnostic) :
    g.decision d = .suppress ↔
      d.code.isCompleteness = true ∧ (∃ r ∈ g.config.rules, r.code = d.code) ∧
      ∃ site, g.source d = some site ∧ ∃ u, g.host.resolve site.subject = .ok u ∧
        u.variants ≠ [] ∧ (g.coverageOf u site).verdict = .exhaustive := by
  rw [← and_assoc, ← Config.isSome_ruleFor?_iff]
  -- walk the ladder: every exit before the proof is a decline
  cases hr : g.config.ruleFor? d.code with
  | none => simp [decision_of_ruleFor?_eq_none hr]
  | some r =>
    cases hs : g.source d with
    | none => simp [decision_of_source_eq_none hr hs]
    | some site =>
      cases hu : g.host.resolve site.subject with
      | error e => simp [decision_of_resolve_error hr hs hu, hu]
      | ok u =>
        by_cases empty : u.variants = []
        · simp [decision_of_resolve_empty hr hs hu empty, hu, empty]
        · rw [decision_of_resolve_ok hr hs hu empty]
          split <;> simp_all

section Sink

variable {σ : Type} [DiagnosticSink σ]

/-- Forwarding a suppression hands the sink the diagnostic under the rule for its code. -/
theorem forward_suppress {g : Gate} {d : Diagnostic} {r : SuppressionRule}
    (hr : g.config.ruleFor? d.code = some r) (sink : σ) :
    g.forward sink d .suppress = DiagnosticSink.suppress sink d r := by
  simp [forward, Decision.isSuppress, hr]

/-- Forwarding any other decision leaves the sink as it was. -/
theorem forward_of_ne_suppress (g : Gate) (sink : σ) (d : Diagnostic) {dec : Decision}
    (h : dec ≠ .suppress) : g.forward sink d dec = sink := by
  cases dec with
  | suppress => exact absurd rfl h
  | keep _ | decline _ => rfl

theorem runBatch_cons (g : Gate) (sink : σ) (d : Diagnostic) (ds : List Diagnostic) :
    g.runBatch sink (d :: ds) =
      (g.decision d :: (g.runBatch (g.forward sink d (g.decision d)) ds).1,
        (g.runBatch (g.forward sink d (g.decision d)) ds).2) := rfl

/-- Deciding a batch first and forwarding afterwards is running the diagnostics in turn. -/
theorem runBatch_eq_runEach (g : Gate) (sink : σ) (ds : List Diagnostic) :
    g.runBatch sink ds = g.runEach sink ds := by
  induction ds generalizing sink with
  | nil => rfl
  | cons d ds ih => rw [runBatch_cons, runEach_cons, ih]

/-- One run is the batch of one diagnostic. -/
theorem runBatch_singleton (g : Gate) (sink : σ) (d : Diagnostic) :
    g.runBatch sink [d] = ([(g.run sink d).1], (g.run sink d).2) := rfl

/-- A batch hands its sink one suppression per suppressed diagnostic, in input order, under the
rule for its code, and nothing else. -/
theorem exists_suppressions_runBatch (g : Gate) (sink : σ) (ds : List Diagnostic) :
    ∃ calls : List (Diagnostic × SuppressionRule),
      calls.map Prod.fst = ds.filter (fun d => g.decision d = .suppress) ∧
      (∀ c ∈ calls, g.config.ruleFor? c.1.code = some c.2) ∧
      (g.runBatch sink ds).2 = calls.foldl (fun s c => DiagnosticSink.suppress s c.1 c.2) sink := by
  induction ds generalizing sink with
  | nil => exact ⟨[], rfl, by simp, rfl⟩
  | cons d ds ih =>
    rw [runBatch_cons]
    by_cases suppressed : g.decision d = .suppress
    · -- the one call this diagnostic causes comes first, the batch's rest after it
      obtain ⟨r, hr⟩ := ruleFor?_of_decision_eq_suppress suppressed
      obtain ⟨calls, firsts, rules, final⟩ := ih (DiagnosticSink.suppress sink d r)
      refine ⟨(d, r) :: calls, ?_, ?_, ?_⟩
      · simp [firsts, suppressed]
      · rintro c (_ | ⟨_, mem⟩)
        · exact hr
        · exact rules c mem
      · rw [suppressed, forward_suppress hr, final]
        rfl
    · obtain ⟨calls, firsts, rules, final⟩ := ih sink
      refine ⟨calls, ?_, rules, ?_⟩
      · simp [firsts, suppressed]
      · rw [forward_of_ne_suppress g sink d suppressed, final]

end Sink

end Gate

/-- **The gate's contract.** For every gate (host, source of match sites, configuration), sink,
batch `ds` and diagnostic `d`:

* a batch answers the decisions of its diagnostics in input order, exactly as running them one
  after another does, and one run is the batch of one;
* the sink receives one suppression for each diagnostic decided `suppress` and for no other, in
  input order, each under the rule the configuration has for its code;
* `d` is suppressed exactly when its code is a completeness code with a rule, it points at a match,
  the subject resolves to a union with variants, and the classified arms are proved exhaustive;
* otherwise the first failing check names the decision: no rule, no match site, the host's error,
  `noVariants` for a union reported without variants, and else `keep` with the proof's coverage. -/
theorem gate_contract {σ : Type} [DiagnosticSink σ] (g : Gate) (sink : σ) (ds : List Diagnostic)
    (d : Diagnostic) :
    (g.runBatch sink ds).1 = ds.map g.decision ∧
    g.runBatch sink ds = g.runEach sink ds ∧
    g.runBatch sink [d] = ([(g.run sink d).1], (g.run sink d).2) ∧
    (∃ calls : List (Diagnostic × SuppressionRule),
      calls.map Prod.fst = ds.filter (fun d => g.decision d = .suppress) ∧
      (∀ c ∈ calls, g.config.ruleFor? c.1.code = some c.2) ∧
      (g.runBatch sink ds).2 = calls.foldl (fun s c => DiagnosticSink.suppress s c.1 c.2) sink) ∧
    (g.decision d = .suppress ↔
      d.code.isCompleteness = true ∧ (∃ r ∈ g.config.rules, r.code = d.code) ∧
      ∃ site, g.source d = some site ∧ ∃ u, g.host.resolve site.subject = .ok u ∧
        u.variants ≠ [] ∧
        (prove u ((Context.mk g.host u).classifyConstruct site.nullable site.arms)).verdict =
          .exhaustive) ∧
    (g.config.ruleFor? d.code = none → g.decision d = .decline (.notSuppressible d.code)) ∧
    (∀ r, g.config.ruleFor? d.code = some r →
      (g.source d = none → g.decision d = .decline .noMatchSite) ∧
      ∀ site, g.source d = some site →
        (∀ e, g.host.resolve site.subject = .error e → g.decision d = .decline (.metadata e)) ∧
        ∀ u, g.host.resolve site.subject = .ok u →
          (u.variants = [] → g.decision d = .decline (.metadata (.noVariants site.subject))) ∧
          (u.variants ≠ [] →
            (prove u ((Context.mk g.host u).classifyConstruct site.nullable site.arms)).verdict ≠
              .exhaustive →
            g.decision d =
              .keep (prove u ((Context.mk g.host u).classifyConstruct site.nullable site.arms)))) := by
  refine ⟨rfl, Gate.runBatch_eq_runEach g sink ds, Gate.runBatch_singleton g sink d,
    Gate.exists_suppressions_runBatch g sink ds, Gate.decision_eq_suppress_iff g d,
    Gate.decision_of_ruleFor?_eq_none, ?_⟩
  intro r hr
  refine ⟨Gate.decision_of_source_eq_none hr, fun site hs => ⟨fun e he =>
    Gate.decision_of_resolve_error hr hs he, fun u hu => ⟨Gate.decision_of_resolve_empty hr hs hu,
    fun nonempty unproved => ?_⟩⟩⟩
  rw [Gate.decision_of_resolve_ok hr hs hu nonempty]
  exact if_neg unproved

end MatchCoverage
