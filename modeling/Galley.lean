import Galley.Conversion
import Galley.Document.Build
import Galley.Document.Visit
import Galley.Proofs.Document.Listings
import Galley.Proofs.Layout.Agreement
import Galley.Proofs.Layout.BalancedTags
import Galley.Proofs.Layout.Cells
import Galley.Proofs.Layout.Faults
import Galley.Proofs.Layout.Fitting
import Galley.Proofs.Layout.Hanging
import Galley.Proofs.Layout.LineEnds
import Galley.Proofs.Layout.Nesting
import Galley.Proofs.Layout.Nests
import Galley.Proofs.Layout.Passages
import Galley.Proofs.Layout.Quotes
import Galley.Proofs.Layout.Reuse
import Galley.Proofs.Layout.Tagging
import Galley.Proofs.Layout.Thinned
import Galley.Proofs.Layout.Verbatim
import Galley.Proofs.Markdown.Content
import Galley.Proofs.Markdown.CrossReferences
import Galley.Proofs.Markdown.Placement
import Galley.Proofs.Numbering.Labels
import Galley.Proofs.Numbering.Rosters
import Galley.Proofs.Ordinals
import Galley.Proofs.Wrap.Breaks
import Galley.Proofs.Wrap.Widening
