import Groundplan.Constraint.Written
import Groundplan.Conversion
import Groundplan.Decimal.Notation
import Groundplan.Engine.Pass
import Groundplan.Expansion
import Groundplan.Expr.Evaluation
import Groundplan.Expr.References
import Groundplan.Graph.Order
import Groundplan.Plain
import Groundplan.Problem
import Groundplan.Text.Case
import Groundplan.Text.Search
import Groundplan.Value.Text
import Groundplan.LogFilter
import Groundplan.Yaml.Character
import Groundplan.Yaml.Scalar
import Groundplan.Yaml.Node
import Groundplan.Yaml.Document
import Groundplan.Proofs.Graph.Path
import Groundplan.Proofs.Graph.Search
import Groundplan.Proofs.ScopeAgreement
import Groundplan.Proofs.ScopeLookup
import Groundplan.Proofs.Refinement.Library
import Groundplan.Proofs.Refinement.Evaluation
import Groundplan.Proofs.Engine.Learning
import Groundplan.Proofs.Engine.Completeness
import Groundplan.Proofs.Engine.Orderly
import Groundplan.Proofs.Engine.Reporting
import Groundplan.Proofs.Engine.Driving
import Groundplan.Proofs.Engine.Confluence
import Groundplan.Proofs.Engine.UpToDate
import Groundplan.Proofs.Engine.Failures
import Groundplan.Proofs.Engine.Defects
import Groundplan.Proofs.Engine.Containment
import Groundplan.Proofs.Engine.Unblocked
import Groundplan.Proofs.Engine.Lifecycle
import Groundplan.Proofs.Engine.Instances
import Groundplan.Proofs.Engine.Locality
import Groundplan.Proofs.Engine.Frame
import Groundplan.Proofs.Engine.Atomicity
import Groundplan.Proofs.Equality.Canonical
import Groundplan.Proofs.Equality.Evaluation
import Groundplan.Proofs.Safety.Preservation
import Groundplan.Proofs.Expansion.Identity
import Groundplan.Proofs.Conversion.Retraction
import Groundplan.Proofs.Expansion.Plan
import Groundplan.Proofs.Expr.Splat
import Groundplan.Proofs.Expr.Grouping
import Groundplan.Proofs.Expr.Directives
import Groundplan.Proofs.Constraint.RoundTrip
import Groundplan.Proofs.Conversion.NumberText
import Groundplan.Proofs.Conversion.JsonText
import Groundplan.Proofs.Network.Host
import Groundplan.Proofs.Library.Range
import Groundplan.Proofs.Library.Flatten
import Groundplan.Proofs.Library.Merge
import Groundplan.Proofs.Library.Format
import Groundplan.Proofs.Library.Split
