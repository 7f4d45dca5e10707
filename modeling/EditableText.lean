import EditableText.Document.Call
import EditableText.Lines.Tree.Lemmas
import EditableText.Options.Config
import EditableText.Proofs.Lines.LinkedTable
import EditableText.Proofs.Lines.Grammar
import EditableText.Proofs.Storage.InPlace
import EditableText.Proofs.Document.Reachable
import EditableText.Proofs.Document.UndoTimeline
import EditableText.Proofs.Document.EventGrammar
import EditableText.Proofs.Document.Rebuilding
import EditableText.Proofs.Document.Refusals
import EditableText.Proofs.Document.Unwinding
import EditableText.Proofs.Document.Retracing
import EditableText.Proofs.Document.Returning
import EditableText.Proofs.Document.Saved
import EditableText.Proofs.Document.Strategy
import EditableText.Proofs.History.Ledger
import EditableText.Proofs.Anchor.Handles
import EditableText.Proofs.Document.Segments
import EditableText.Proofs.Document.Marked
import EditableText.Proofs.Document.Mirrored
import EditableText.Proofs.Change.Confined
import EditableText.Proofs.Document.TwoSteps
import EditableText.Proofs.Document.Switch
import EditableText.Proofs.Bus.Delivery
import EditableText.Proofs.Lines.Queries
import EditableText.Proofs.Anchor.Releasing
import EditableText.Proofs.Document.Busy
import EditableText.Proofs.Document.Misfit
import EditableText.Proofs.Lines.Locations
import EditableText.Proofs.Lines.Unifying
import EditableText.Proofs.Document.Delimiters
import EditableText.Proofs.Text.Matching
import EditableText.Proofs.Segment
import EditableText.Proofs.Options
import EditableText.Proofs.Document.Mapping
import EditableText.Proofs.Lines.Priorities
