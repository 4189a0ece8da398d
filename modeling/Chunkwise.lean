import Chunkwise.Text.Case
import Chunkwise.Text.Numeral
import Chunkwise.Text.Quoted
import Chunkwise.Text.Word
import Chunkwise.Pattern
import Chunkwise.Size
import Chunkwise.Label
import Chunkwise.Argument.Integer
import Chunkwise.Keyed
import Chunkwise.Outline.Finding
import Chunkwise.Outline.Headings
import Chunkwise.Outline.Indented
import Chunkwise.Outline.Comments
import Chunkwise.Outline.Braced
import Chunkwise.Outline.Registry
import Chunkwise.Collection.Entry
import Chunkwise.Boundary.Plan
import Chunkwise.Chunk.Semantic
import Chunkwise.Chunk.Sized
import Chunkwise.Reference.Files
import Chunkwise.Reference.Chunks
import Chunkwise.Report
import Chunkwise.Pass
import Chunkwise.Session.Request
import Chunkwise.Proofs.Chunk.Assembly
import Chunkwise.Proofs.Chunk.Greedy
import Chunkwise.Proofs.Outline.Blocks
import Chunkwise.Proofs.Collection.Files
import Chunkwise.Proofs.Boundary.Placement
import Chunkwise.Proofs.Boundary.Order
import Chunkwise.Proofs.Pass.Lossless
import Chunkwise.Proofs.Pass.Membership
import Chunkwise.Proofs.Text.Blank
import Chunkwise.Proofs.Collection.Fields
import Chunkwise.Proofs.Collection.RoundTrip
import Chunkwise.Proofs.Collection.Grammar
import Chunkwise.Proofs.Session.History
import Chunkwise.Proofs.Session.State
import Chunkwise.Proofs.Collection.Keys
import Chunkwise.Proofs.Collection.Appending
import Chunkwise.Proofs.Session.Rollback
import Chunkwise.Proofs.Session.Installs
import Chunkwise.Proofs.Session.Strategy
import Chunkwise.Proofs.Session.Answers
import Chunkwise.Proofs.Pass.References
import Chunkwise.Proofs.Pass.Unwrapping
import Chunkwise.Proofs.Outline.Nesting
import Chunkwise.Proofs.Outline.WellFormed
import Chunkwise.Proofs.Outline.Tracking
import Chunkwise.Proofs.Session.StartingOver
import Chunkwise.Proofs.Chunk.Fewest
import Chunkwise.Proofs.Chunk.Sized
import Chunkwise.Proofs.Chunk.Headed
import Chunkwise.Proofs.Chunk.Cuts
import Chunkwise.Proofs.Ascending
import Chunkwise.Proofs.Reference.Resolution
import Chunkwise.Proofs.Reference.UnambiguousCalls
import Chunkwise.Proofs.Outline.Unread
import Chunkwise.Proofs.Outline.Comments
import Chunkwise.Proofs.Reference.Lookup
import Chunkwise.Proofs.Label
import Chunkwise.Proofs.Pass.Names
import Chunkwise.Proofs.Boundary.LinePlaces
import Chunkwise.Proofs.Size.Units
