import QueryOutline.Binary64
import QueryOutline.CommandLine
import QueryOutline.Config
import QueryOutline.Decimal.Shortest
import QueryOutline.Decimal.Text
import QueryOutline.Document
import QueryOutline.Dump
import QueryOutline.Error
import QueryOutline.FilePath
import QueryOutline.FileSystem
import QueryOutline.Inputs
import QueryOutline.Json.Fault
import QueryOutline.Json.Printer
import QueryOutline.Json.Reader
import QueryOutline.Json.Reader.Number
import QueryOutline.Json.Reader.Text
import QueryOutline.Json.Value
import QueryOutline.Keyed
import QueryOutline.Main
import QueryOutline.Node.Basic
import QueryOutline.Node.Kind
import QueryOutline.Node.OfJson
import QueryOutline.Node.Walk
import QueryOutline.Outline
import QueryOutline.Program
import QueryOutline.References
import QueryOutline.Render
import QueryOutline.Report
import QueryOutline.Session
import QueryOutline.Text.Quoted
import QueryOutline.Text.Visible
import QueryOutline.Toml.Reader
import QueryOutline.Toml.Scalar
import QueryOutline.Toml.Value
import QueryOutline.Proofs.Keyed
import QueryOutline.Proofs.Node.Tree
import QueryOutline.Proofs.References
import QueryOutline.Proofs.Document.LevelOrder
import QueryOutline.Proofs.Render.Layout
import QueryOutline.Proofs.Render.Width
import QueryOutline.Proofs.Render.Strokes
import QueryOutline.Proofs.Node.Wrappers
import QueryOutline.Proofs.Text.Quoted
import QueryOutline.Proofs.Text.Lines
import QueryOutline.Proofs.Render.ReferenceLine
import QueryOutline.Proofs.Attempts
import QueryOutline.Proofs.Program.Settings
import QueryOutline.Proofs.Program.Stages
import QueryOutline.Proofs.Program.Loading
import QueryOutline.Proofs.Program.Failures
import QueryOutline.Proofs.Program.Reports
import QueryOutline.Proofs.Program.Outcome
import QueryOutline.Proofs.Document.Envelope
import QueryOutline.Proofs.Session
import QueryOutline.Proofs.Json.Nesting
import QueryOutline.Proofs.Node.Conversion
import QueryOutline.Proofs.Render.Depth
import QueryOutline.Proofs.Json.ReadBack
import QueryOutline.Proofs.Report
import QueryOutline.Proofs.CommandLine
import QueryOutline.Proofs.Program.Formats
import QueryOutline.Proofs.References.Locality
import QueryOutline.Proofs.Render.Segments
import QueryOutline.Proofs.Node.Spellings
import QueryOutline.Proofs.FilePath.Order
import QueryOutline.Proofs.FilePath.Components
import QueryOutline.Proofs.FileSystem
import QueryOutline.Proofs.Inputs
import QueryOutline.Proofs.Render.VisibleNames
import QueryOutline.Proofs.Node.Image
import QueryOutline.Proofs.Report.Lossless
import QueryOutline.Proofs.FilePath.Parents
import QueryOutline.Proofs.FileSystem.Locations
import QueryOutline.Proofs.Config.Search
import QueryOutline.Proofs.Program.Subcommand
import QueryOutline.Proofs.CommandLine.Written
import QueryOutline.Proofs.Node.Places
import QueryOutline.Proofs.Node.Pruning
import QueryOutline.Proofs.Dump
import QueryOutline.Proofs.Text.Repr
import QueryOutline.Proofs.Node.Same
