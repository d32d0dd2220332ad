import ReleaseMatrix.Comparison
import ReleaseMatrix.Main
import ReleaseMatrix.Proofs.Matrix.Content
import ReleaseMatrix.Proofs.Requirement.Alternatives
import ReleaseMatrix.Proofs.Requirement.Conjunction
import ReleaseMatrix.Proofs.Matrix.Extremes
import ReleaseMatrix.Proofs.Requirement.Line
import ReleaseMatrix.Proofs.Catalog.Retries
import ReleaseMatrix.Proofs.Report.StepOutputs
import ReleaseMatrix.Proofs.Constraint.Shape
import ReleaseMatrix.Proofs.Requirement.Shape
import ReleaseMatrix.Proofs.Matrix.Block
import ReleaseMatrix.Proofs.Run.Causes
import ReleaseMatrix.Proofs.Requirement.Comparison
import ReleaseMatrix.Proofs.Catalog.Shapes
import ReleaseMatrix.Proofs.Run.Independence
import ReleaseMatrix.Proofs.Matrix.Growth
import ReleaseMatrix.Proofs.Catalog.Backoff
import ReleaseMatrix.Proofs.Version.Runs
import ReleaseMatrix.Proofs.Text.Pattern
import ReleaseMatrix.Proofs.Version.Matching
import ReleaseMatrix.Proofs.Version.Extraction
import ReleaseMatrix.Proofs.Literal.Grammar
import ReleaseMatrix.Proofs.Requirement.LoneSign
import ReleaseMatrix.Proofs.Requirement.Tokens
import ReleaseMatrix.Proofs.Requirement.SignPattern
import ReleaseMatrix.Proofs.Requirement.Reasons
import ReleaseMatrix.Proofs.Requirement.Numberless
import ReleaseMatrix.Proofs.Requirement.Flag
import ReleaseMatrix.Proofs.Release.Descriptor
import ReleaseMatrix.Proofs.Catalog.Keyed
import ReleaseMatrix.Proofs.Constraint.Label
import ReleaseMatrix.Proofs.Constraint.Simplification
import ReleaseMatrix.Proofs.Requirement.Range
import ReleaseMatrix.Proofs.Literal.Matching
import ReleaseMatrix.Proofs.Literal.Writing
import ReleaseMatrix.Proofs.Requirement.OwnName
import ReleaseMatrix.Proofs.Requirement.ReadBack
import ReleaseMatrix.Proofs.Run.Command
import ReleaseMatrix.Proofs.Candidate.Arrangement
import ReleaseMatrix.Proofs.Matrix.Reordering
import ReleaseMatrix.Proofs.Matrix.Narrowing
import ReleaseMatrix.Proofs.Report.JsonLine
import ReleaseMatrix.Proofs.Requirement.NormalText
import ReleaseMatrix.Proofs.Requirement.Layout
import ReleaseMatrix.Proofs.Manifest.Declared
