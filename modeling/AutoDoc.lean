import AutoDoc.Backup
import AutoDoc.Calendar
import AutoDoc.Command.Execution
import AutoDoc.Command.Line
import AutoDoc.Configuration
import AutoDoc.Discovery
import AutoDoc.Docstring.Block
import AutoDoc.Docstring.Sentence
import AutoDoc.Document
import AutoDoc.Element.Basic
import AutoDoc.Element.Codec
import AutoDoc.Element.Extraction
import AutoDoc.Element.Resolution
import AutoDoc.Fault
import AutoDoc.Host.Basic
import AutoDoc.Host.Formatter
import AutoDoc.Host.Interpreter
import AutoDoc.Host.Script
import AutoDoc.Host.Toolkit
import AutoDoc.Json.Parser
import AutoDoc.Json.Printer
import AutoDoc.Json.Record
import AutoDoc.Json.Value
import AutoDoc.Magnitude.Basic
import AutoDoc.Magnitude.Shortest
import AutoDoc.Main
import AutoDoc.Outline.Basic
import AutoDoc.Outline.Blocks
import AutoDoc.Outline.Codec
import AutoDoc.Outline.Fixed
import AutoDoc.Outline.Lines
import AutoDoc.Outline.Parser
import AutoDoc.Outline.Reader
import AutoDoc.Revision
import AutoDoc.Run.Basic
import AutoDoc.Run.Error
import AutoDoc.Run.Summary
import AutoDoc.Settings
import AutoDoc.SourceText
import AutoDoc.Splice
import AutoDoc.Text.Letter
import AutoDoc.Text.Search
import AutoDoc.Text.TripleQuote
import AutoDoc.Text.White
import AutoDoc.Toml.Document
import AutoDoc.Toml.Scalar
import AutoDoc.Toml.Table
import AutoDoc.Toolkit.Basic
import AutoDoc.Toolkit.Table
import AutoDoc.Tree.Access
import AutoDoc.Tree.Error
import AutoDoc.Tree.Node
import AutoDoc.Tree.Path
import AutoDoc.Tree.Resolve
import AutoDoc.Word
import AutoDoc.Worker.Message
import AutoDoc.Worker.Service
import AutoDoc.Worker.Session
import AutoDoc.Proofs.Revision.Basic
import AutoDoc.Proofs.Revision.Descent
import AutoDoc.Proofs.Document.Stages
import AutoDoc.Proofs.Revision.Conservation
import AutoDoc.Proofs.Document.Transaction
import AutoDoc.Proofs.Element.Pending
import AutoDoc.Proofs.Docstring.Plain
import AutoDoc.Proofs.Document.Repetition
import AutoDoc.Proofs.Document.Placement
import AutoDoc.Proofs.Document.Regularity
import AutoDoc.Proofs.Backup.Removal
import AutoDoc.Proofs.Backup.Replacement
import AutoDoc.Proofs.Discovery.Basic
import AutoDoc.Proofs.Host.Script
import AutoDoc.Proofs.Run.Frame
import AutoDoc.Proofs.Run.Pristine
import AutoDoc.Proofs.Worker.Calls
import AutoDoc.Proofs.Worker.Lifecycle
import AutoDoc.Proofs.Document.Steady
import AutoDoc.Proofs.Worker.Replies
import AutoDoc.Proofs.Json.RoundTrip
import AutoDoc.Proofs.Run.Order
import AutoDoc.Proofs.Run.Totals
import AutoDoc.Proofs.Run.Stopping
import AutoDoc.Proofs.Command.Failure
import AutoDoc.Proofs.Outline.Grammar
import AutoDoc.Proofs.Outline.Scopes
import AutoDoc.Proofs.Outline.Forest
import AutoDoc.Proofs.Outline.Surroundings
import AutoDoc.Proofs.Document.Depth
import AutoDoc.Proofs.Json.Edits
import AutoDoc.Proofs.Element.Codec
import AutoDoc.Proofs.Json.Printable
import AutoDoc.Proofs.Outline.Codec
import AutoDoc.Proofs.Worker.Messages
import AutoDoc.Proofs.Worker.Hosting
import AutoDoc.Proofs.Host.Tables
import AutoDoc.Proofs.Toolkit.Refinement
import AutoDoc.Proofs.Splice.Tracking
import AutoDoc.Proofs.Splice.Succession
import AutoDoc.Proofs.Docstring.Delimiters
import AutoDoc.Proofs.Docstring.Influence
import AutoDoc.Proofs.Docstring.Layout
import AutoDoc.Proofs.Element.Precedence
import AutoDoc.Proofs.Element.Relations
import AutoDoc.Proofs.Element.Extraction
import AutoDoc.Proofs.Text.Editing
import AutoDoc.Proofs.Text.Packing
import AutoDoc.Proofs.Splice.Folding
import AutoDoc.Proofs.Discovery.Filter
import AutoDoc.Proofs.Backup.Exact
