import Stencil.CommandLine.Response
import Stencil.FileSystem.Changes
import Stencil.Main
import Stencil.Proofs.KeyedList
import Stencil.Proofs.Sorted
import Stencil.Proofs.Path.Below
import Stencil.Proofs.Placeholder.Scan
import Stencil.Proofs.Text.Separated
import Stencil.Tree.Listing
import Stencil.Tree.Arena
import Stencil.Proofs.Expansion.Narrowing
import Stencil.Proofs.Tree.Shown
import Stencil.Proofs.Tree.Shape
import Stencil.Proofs.Tree.Trials
import Stencil.Proofs.Tree.FanOut
import Stencil.Proofs.Placeholder.Filled
import Stencil.Proofs.Placeholder.Trace
import Stencil.Proofs.Placeholder.Simultaneous
import Stencil.Proofs.Placeholder.Segments
import Stencil.Proofs.Placeholder.Outcome
import Stencil.Proofs.Expansion.NestedLoops
import Stencil.Proofs.Tree.Resolved
import Stencil.Proofs.Tree.Containment
import Stencil.Proofs.Tree.Agreement
import Stencil.Proofs.FileSystem.Effects
import Stencil.Proofs.Tree.Deeds
import Stencil.Proofs.Tree.Accounting
import Stencil.Proofs.Tree.Frame
import Stencil.Proofs.Tree.LastWriter
import Stencil.Proofs.Tree.Narrowed
import Stencil.Proofs.Tree.Skipped
import Stencil.Proofs.Expansion.Flattening
import Stencil.Proofs.Tree.Flattened
import Stencil.Proofs.Tree.Levels
import Stencil.Proofs.Tree.Grown
import Stencil.Proofs.Tree.Links
import Stencil.Proofs.Text.Bytes
import Stencil.Proofs.Tree.Walks
import Stencil.Proofs.Tree.Checked
import Stencil.Proofs.Tree.Diagnosed
import Stencil.Proofs.FileSystem.Repeated
import Stencil.Proofs.Tree.Repeated
import Stencil.Proofs.Generation.Prepared
import Stencil.Proofs.Tree.Spelling
import Stencil.Proofs.Tree.Marked
import Stencil.Proofs.Tree.Single
import Stencil.Proofs.Text.Trimmed
import Stencil.Proofs.Decimal.Numeral
import Stencil.Proofs.Placeholder.Padding
import Stencil.Proofs.Bindings.RangeText
import Stencil.Proofs.Json.Parts
import Stencil.Proofs.Json.NumberText
import Stencil.Proofs.Json.StringText
import Stencil.Proofs.Json.Grammar
import Stencil.Proofs.Json.Reading
import Stencil.Proofs.Value.Mirrored
import Stencil.Proofs.Json.Written
import Stencil.Proofs.Value.Equality
import Stencil.Proofs.Value.RoundTrip
import Stencil.Proofs.Bindings.KeyOrder
import Stencil.Proofs.Bindings.Assigned
import Stencil.Proofs.KeyedList.Merge
import Stencil.Proofs.Bindings.Layers
import Stencil.Proofs.Placeholder.Composed
import Stencil.Proofs.Value.Equivalence
