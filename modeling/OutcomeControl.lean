import OutcomeControl.Command.Disk
import OutcomeControl.Format.Lowering
import OutcomeControl.Main
import OutcomeControl.Program.Edit
import OutcomeControl.Proofs.Meaning
import OutcomeControl.Proofs.Settled
import OutcomeControl.Proofs.Gathering
import OutcomeControl.Proofs.Yield
import OutcomeControl.Proofs.Conservation
import OutcomeControl.Proofs.Forest
import OutcomeControl.Proofs.Ownership
import OutcomeControl.Proofs.Revision
import OutcomeControl.Proofs.Renaming
import OutcomeControl.Proofs.Independence
import OutcomeControl.Proofs.JsonText
import OutcomeControl.Proofs.ShapeRoundTrip
import OutcomeControl.Proofs.TreeRoundTrip
import OutcomeControl.Proofs.Finite
import OutcomeControl.Proofs.Conformance
import OutcomeControl.Proofs.ShapeTrees
import OutcomeControl.Proofs.Literals
import OutcomeControl.Proofs.Files
import OutcomeControl.Proofs.ReadBack
import OutcomeControl.Proofs.Respelling
import OutcomeControl.Proofs.Capture
import OutcomeControl.Proofs.OperationCalls
import OutcomeControl.Proofs.Purity
import OutcomeControl.Proofs.Remarks
import OutcomeControl.Proofs.Nesting
import OutcomeControl.Proofs.Reservation
import OutcomeControl.Proofs.NestedForm
import OutcomeControl.Proofs.Typing
import OutcomeControl.Proofs.Dissolution
import OutcomeControl.Proofs.Budget
import OutcomeControl.Proofs.Rerouting
import OutcomeControl.Proofs.Grouping
import OutcomeControl.Proofs.Editing
