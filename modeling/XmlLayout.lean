import XmlLayout.Text.Quoted
import XmlLayout.Text.Lines
import XmlLayout.Text.Integer
import XmlLayout.Decimal.Layout
import XmlLayout.Decimal.Literal
import XmlLayout.Document.Edit
import XmlLayout.Document.Blueprint
import XmlLayout.Indent.Moves
import XmlLayout.Reading.Tree
import XmlLayout.Writing.Rendering
import XmlLayout.Writing.Writer
import XmlLayout.Content
import XmlLayout.Sample.Documents
import XmlLayout.Timing.Pair
import XmlLayout.Timing.Rack
import XmlLayout.Check.Words
import XmlLayout.Main
import XmlLayout.Proofs.Indent.ClosedForm
import XmlLayout.Proofs.Indent.Reuse
import XmlLayout.Proofs.Writing.Sharing
import XmlLayout.Proofs.Content.RoundTrip
import XmlLayout.Proofs.Writing.Refused
import XmlLayout.Proofs.Sample.Documents
import XmlLayout.Proofs.Check.Rounds
import XmlLayout.Proofs.Indent.Store
import XmlLayout.Proofs.Indent.Strict
import XmlLayout.Proofs.Content.Comparison
import XmlLayout.Proofs.Writing.Unambiguous
import XmlLayout.Proofs.Content.Kept
import XmlLayout.Proofs.Content.Overlooked
import XmlLayout.Proofs.Check.Effects
import XmlLayout.Proofs.Indent.Growth
import XmlLayout.Proofs.Indent.FiniteMap
import XmlLayout.Proofs.Writing.Balanced
import XmlLayout.Proofs.Writing.LineLayout
import XmlLayout.Proofs.Sample.Budget
import XmlLayout.Proofs.Reading.Names
import XmlLayout.Proofs.Content.Refusal
import XmlLayout.Proofs.Timing.Calls
import XmlLayout.Proofs.Check.Measures
import XmlLayout.Proofs.Check.Words
import XmlLayout.Proofs.Check.Options
import XmlLayout.Proofs.Timing.Rack
import XmlLayout.Proofs.Document.Equality
