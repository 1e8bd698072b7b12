import GraphShapes.Encoding.Config
import GraphShapes.Encoding.PlanGraph
import GraphShapes.Encoding.Report
import GraphShapes.Proofs.Cursor.Collect
import GraphShapes.Proofs.Cursor.Failure
import GraphShapes.Proofs.Cursor.Final
import GraphShapes.Proofs.Cursor.Leak
import GraphShapes.Proofs.Cursor.Peeking
import GraphShapes.Proofs.Cursor.Transparency
import GraphShapes.Proofs.Encoding.Lossless
import GraphShapes.Proofs.Plan.Built
import GraphShapes.Proofs.Plan.Distinct
import GraphShapes.Proofs.Plan.Dot
import GraphShapes.Proofs.Plan.Join
import GraphShapes.Proofs.Plan.Lookup
import GraphShapes.Proofs.Plan.Order
import GraphShapes.Proofs.Plan.Picture
import GraphShapes.Proofs.Plan.Union
import GraphShapes.Proofs.Planner.Allotting
import GraphShapes.Proofs.Planner.Caching
import GraphShapes.Proofs.Planner.DeMorgan
import GraphShapes.Proofs.Planner.Defects
import GraphShapes.Proofs.Planner.Domain
import GraphShapes.Proofs.Planner.Idle
import GraphShapes.Proofs.Planner.Marked
import GraphShapes.Proofs.Planner.Neutral
import GraphShapes.Proofs.Planner.Provenance
import GraphShapes.Proofs.Planner.Reordering
import GraphShapes.Proofs.Planner.TraceOrder
import GraphShapes.Proofs.Row.TotalOrder
import GraphShapes.Proofs.Store.History
import GraphShapes.Proofs.Transaction.Selections
import GraphShapes.Proofs.Transaction.Views
import GraphShapes.Proofs.Validator.Caching
import GraphShapes.Proofs.Validator.Everything
import GraphShapes.Proofs.Validator.Failing
import GraphShapes.Proofs.Validator.FirstCommit
import GraphShapes.Proofs.Validator.Limits
import GraphShapes.Proofs.Validator.Origin
import GraphShapes.Proofs.Validator.TraceOrder
import GraphShapes.Validator.Setup
import GraphShapes.Workbench
