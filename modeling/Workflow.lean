import Workflow.Graph.Import
import Workflow.Graph.Run
import Workflow.Proofs.Codegen.Address
import Workflow.Proofs.Graph.Atomicity
import Workflow.Proofs.Graph.FreshNumber
import Workflow.Proofs.Graph.Imported
import Workflow.Proofs.Graph.ImportedLabel
import Workflow.Proofs.Graph.OwnLabel
import Workflow.Proofs.Graph.Toggling
import Workflow.Proofs.Graph.Topology
import Workflow.Proofs.Graph.Unambiguous
import Workflow.Proofs.Graph.UnknownNames
import Workflow.Proofs.Server.Faults
import Workflow.Proofs.Server.Generation
import Workflow.Proofs.Session.BuiltGraph
import Workflow.Proofs.Session.Refusals
import Workflow.Proofs.Session.RestoredLabel
import Workflow.Proofs.Session.SavedState
import Workflow.Proofs.Session.Startup
import Workflow.Proofs.Spec.Grammar
import Workflow.Proofs.Spec.ScalarInPlace
import Workflow.Proofs.Spec.TextRoundTrip
import Workflow.Session.Run
import Workflow.Spec.Check
