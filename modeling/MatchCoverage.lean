import MatchCoverage.Span
import MatchCoverage.TypeId
import MatchCoverage.Interner
import MatchCoverage.Diagnostic.Code
import MatchCoverage.Decl
import MatchCoverage.Union
import MatchCoverage.Pattern.Host
import MatchCoverage.Host
import MatchCoverage.Registry
import MatchCoverage.Pattern.Basic
import MatchCoverage.Pattern.Classify
import MatchCoverage.Pattern.Contribution
import MatchCoverage.Coverage
import MatchCoverage.Prover
import MatchCoverage.Diagnostic.Basic
import MatchCoverage.Diagnostic.Suppression
import MatchCoverage.Gate.Config
import MatchCoverage.Gate.Basic
import MatchCoverage.Proofs.ProverSpec
import MatchCoverage.Proofs.Classification
import MatchCoverage.Proofs.Soundness
import MatchCoverage.Proofs.Semilattice
import MatchCoverage.Proofs.GateContract
import MatchCoverage.Proofs.NameTable
import MatchCoverage.Proofs.RegistryView
import MatchCoverage.Proofs.ClassifierSpec
import MatchCoverage.Pattern.Memo
import MatchCoverage.Proofs.Inertness
import MatchCoverage.Proofs.MemoSpec
import MatchCoverage.Proofs.Registration
import MatchCoverage.Proofs.Report
import MatchCoverage.Proofs.ByteOrder
import MatchCoverage.Proofs.SpanHull
import MatchCoverage.Proofs.RuleLookup
import MatchCoverage.Proofs.DistinctVariants
