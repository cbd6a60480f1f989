import ProtoScribe.Main
import ProtoScribe.Schema.Json
import ProtoScribe.Storage.World
import ProtoScribe.Proofs.Source.Lines
import ProtoScribe.Proofs.Source.Depth
import ProtoScribe.Proofs.Source.Width
import ProtoScribe.Proofs.Source.Reader
import ProtoScribe.Proofs.Source.RoundTrip
import ProtoScribe.Proofs.Text.Utf8
import ProtoScribe.Proofs.Path.Plain
import ProtoScribe.Proofs.Storage.Entries
import ProtoScribe.Proofs.Storage.Walk
import ProtoScribe.Proofs.Storage.Run
import ProtoScribe.Proofs.Storage.Links
import ProtoScribe.Proofs.Storage.Obstacles
import ProtoScribe.Proofs.Storage.Directories
import ProtoScribe.Proofs.Storage.Files
import ProtoScribe.Proofs.Storage.Commands
import ProtoScribe.Proofs.Write.Steps
import ProtoScribe.Proofs.Write.Name
import ProtoScribe.Proofs.Write.Outcome
import ProtoScribe.Proofs.Write.Faults
import ProtoScribe.Proofs.Write.Atomic
import ProtoScribe.Proofs.Write.Confined
import ProtoScribe.Proofs.Json.Grammar
import ProtoScribe.Proofs.Json.Literals
import ProtoScribe.Proofs.Json.Parse
import ProtoScribe.Proofs.Json.Meaning
import ProtoScribe.Proofs.Json.Draft
import ProtoScribe.Proofs.Json.Reading
import ProtoScribe.Proofs.Json.Render
import ProtoScribe.Proofs.Schema.Document
import ProtoScribe.Proofs.Schema.JsonText
import ProtoScribe.Proofs.Storage.Growth
import ProtoScribe.Proofs.Write.Admits
import ProtoScribe.Proofs.Write.Ends
import ProtoScribe.Proofs.Command.Stages
import ProtoScribe.Proofs.Command.Discovery
import ProtoScribe.Proofs.Command.Failure
import ProtoScribe.Proofs.Command.Agreement
import ProtoScribe.Proofs.Command.Repetition
import ProtoScribe.Proofs.Yaml.Glyphs
import ProtoScribe.Proofs.Yaml.Scalars
import ProtoScribe.Proofs.Yaml.Tokens
import ProtoScribe.Proofs.Yaml.Nodes
import ProtoScribe.Proofs.Yaml.Words
import ProtoScribe.Proofs.Yaml.Reading
import ProtoScribe.Proofs.Schema.Formats
import ProtoScribe.Proofs.Schema.Nesting
import ProtoScribe.Proofs.Source.Header
import ProtoScribe.Proofs.Write.Modes
import ProtoScribe.Proofs.Write.Verdict
import ProtoScribe.Proofs.Write.Sequence
import ProtoScribe.Proofs.Source.Listing
import ProtoScribe.Proofs.Source.BlankLines
import ProtoScribe.Proofs.Storage.Mirrors
import ProtoScribe.Proofs.Write.Mirrors
import ProtoScribe.Proofs.Command.Mirrors
import ProtoScribe.Proofs.Command.Verbosity
import ProtoScribe.Proofs.Command.Listening
import ProtoScribe.Proofs.Command.Reports
import ProtoScribe.Proofs.Storage.Visits
import ProtoScribe.Proofs.Storage.Beside
import ProtoScribe.Proofs.Storage.Apart
import ProtoScribe.Proofs.Command.Masking
import ProtoScribe.Proofs.Path.Components
import ProtoScribe.Proofs.Write.Naming
import ProtoScribe.Proofs.Text.Refusal
import ProtoScribe.Proofs.Write.Encoding
import ProtoScribe.Proofs.Storage.Places
import ProtoScribe.Proofs.Write.Spelling
import ProtoScribe.Proofs.Yaml.Content
import ProtoScribe.Proofs.Yaml.Sense
import ProtoScribe.Proofs.Yaml.Order
import ProtoScribe.Proofs.Yaml.Numerals
import ProtoScribe.Proofs.Config.Document
import ProtoScribe.Proofs.Path.Extension
import ProtoScribe.Proofs.Command.DefaultName
import ProtoScribe.Proofs.Source.Building
import ProtoScribe.Proofs.Source.Assembly
import ProtoScribe.Proofs.Command.Emission
