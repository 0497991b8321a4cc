import MatchCoverage.Pattern.Classify
import MatchCoverage.Prover
import MatchCoverage.Gate.Config

/-!
# The diagnostic gate

A gate stands between the host's diagnostics and the user. For each reported occurrence it
decides one of three things:

* *suppress*: the occurrence has a completeness code with a rule, it points at a match, the
  match's subject is a closed union with variants, and the unguarded arms cover every value;
* *keep*, with the coverage that shows what is missing, when the same holds except the last;
* *decline*, with the reason, when the occurrence lies outside the gate's remit: its code has no
  rule, it points at no match, or the subject type is not a closed union with variants.

Declining is never an error; the diagnostic simply stands. The decision depends on the occurrence
alone, never on earlier ones, so a batch is decided as a whole and then forwarded in order. Only a
suppression is forwarded: the sink, whatever it is, receives the occurrence under the rule for its
code.
-/

namespace MatchCoverage

/-- Finds the match a diagnostic points at. -/
abbrev MatchSource := Diagnostic → Option MatchSite

/-- A match site together with the span it is reported at. -/
structure LocatedSite where
  /-- Where the match stands. -/
  span : Span
  /-- The match. -/
  site : MatchSite
deriving Repr

/-- The first of the sites that stands exactly where a diagnostic's primary label points; a
diagnostic without a primary label points at no site. -/
def MatchSource.bySpan (sites : List LocatedSite) : MatchSource := fun d =>
  d.primarySpan?.bind fun s => (sites.find? (·.span == s)).map (·.site)

/-- Why a gate leaves a diagnostic alone. -/
inductive DeclineReason where
  /-- No rule silences the diagnostic's code. -/
  | notSuppressible (code : Code)
  /-- The diagnostic points at no match. -/
  | noMatchSite
  /-- The match's subject type is not a closed union with variants. -/
  | metadata (e : ResolveError)
deriving DecidableEq, Repr

/-- What a gate decides about one diagnostic. -/
inductive Decision where
  /-- The match is proved exhaustive; the diagnostic is silenced. -/
  | suppress
  /-- The match is not proved exhaustive; the diagnostic stands with the coverage found. -/
  | keep (coverage : Coverage)
  /-- The diagnostic is outside the gate's remit. -/
  | decline (reason : DeclineReason)
deriving DecidableEq, Repr

/-- The decision silences the diagnostic. -/
def Decision.isSuppress : Decision → Bool
  | .suppress => true
  | _ => false

/-- A gate: the host to ask about types, the source of match sites, and the rules. -/
structure Gate where
  /-- Answers questions about the host's types. -/
  host : Host
  /-- Finds the match a diagnostic points at. -/
  source : MatchSource
  /-- The suppression rules. -/
  config : Gate.Config := Gate.Config.standard

namespace Gate

/-- The coverage that the arms of a site establish over a closed union. -/
def coverageOf (g : Gate) (u : ClosedUnion) (site : MatchSite) : Coverage :=
  prove u ((Context.mk g.host u).classifyConstruct site.nullable site.arms)

/-- Decides one diagnostic. -/
def decision (g : Gate) (d : Diagnostic) : Decision :=
  match g.config.ruleFor? d.code with
  | none => .decline (.notSuppressible d.code)
  | some _ =>
    match g.source d with
    | none => .decline .noMatchSite
    | some site =>
      match g.host.resolve site.subject with
      | .error e => .decline (.metadata e)
      | .ok u =>
        if u.isEmpty then .decline (.metadata (.noVariants site.subject))
        else
          let c := g.coverageOf u site
          if c.isExhaustive then .suppress else .keep c

section Sink

variable {σ : Type} [DiagnosticSink σ]

/-- Hands a suppression to the sink under the rule for the diagnostic's code; other decisions
reach the sink not at all. -/
def forward (g : Gate) (sink : σ) (d : Diagnostic) (dec : Decision) : σ :=
  if dec.isSuppress then
    match g.config.ruleFor? d.code with
    | some r => DiagnosticSink.suppress sink d r
    | none => sink
  else sink

/-- Decides one diagnostic and forwards the decision. -/
def run (g : Gate) (sink : σ) (d : Diagnostic) : Decision × σ :=
  let dec := g.decision d
  (dec, g.forward sink d dec)

/-- Runs the diagnostics one after another on one sink. -/
def runEach (g : Gate) (sink : σ) : List Diagnostic → List Decision × σ
  | [] => ([], sink)
  | d :: ds =>
    let (dec, sink) := g.run sink d
    let (decs, sink) := g.runEach sink ds
    (dec :: decs, sink)

/-- Decides every diagnostic, then forwards the decisions in input order. -/
def runBatch (g : Gate) (sink : σ) (ds : List Diagnostic) : List Decision × σ :=
  let decs := ds.map g.decision
  (decs, (ds.zip decs).foldl (fun s (d, dec) => g.forward s d dec) sink)

/-- A batch decides every diagnostic on its own, in input order. -/
@[simp] theorem runBatch_fst (g : Gate) (sink : σ) (ds : List Diagnostic) :
    (g.runBatch sink ds).1 = ds.map g.decision := rfl

@[simp] theorem runEach_nil (g : Gate) (sink : σ) : g.runEach sink [] = ([], sink) := rfl

theorem runEach_cons (g : Gate) (sink : σ) (d : Diagnostic) (ds : List Diagnostic) :
    g.runEach sink (d :: ds) =
      ((g.decision d) :: (g.runEach (g.forward sink d (g.decision d)) ds).1,
        (g.runEach (g.forward sink d (g.decision d)) ds).2) := rfl

end Sink

end Gate

end MatchCoverage
