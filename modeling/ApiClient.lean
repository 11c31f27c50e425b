import ApiClient.Main
import ApiClient.Generation.Cursor
import ApiClient.Sink.Table
import ApiClient.Proofs.CommandLine.Overriding
import ApiClient.Proofs.CommandLine.WalkOrder
import ApiClient.Proofs.Config.Acceptance
import ApiClient.Proofs.Document.Equality
import ApiClient.Proofs.Endpoint.Acceptance
import ApiClient.Proofs.Endpoint.Description
import ApiClient.Proofs.Execution.InMemory
import ApiClient.Proofs.Execution.Progress
import ApiClient.Proofs.Generation.BlockStructure
import ApiClient.Proofs.Generation.Files
import ApiClient.Proofs.Generation.Wrapping
import ApiClient.Proofs.Glob.Splitting
import ApiClient.Proofs.Json.Grammar
import ApiClient.Proofs.Json.Objects
import ApiClient.Proofs.Request.Accounting
import ApiClient.Proofs.Request.Address
import ApiClient.Proofs.Request.Outcome
import ApiClient.Proofs.Request.Version
import ApiClient.Proofs.Sink.Failures
import ApiClient.Proofs.Sink.Layout
import ApiClient.Proofs.Sink.Table
import ApiClient.Proofs.Text.Literal
import ApiClient.Proofs.Xml.RoundTrip
import ApiClient.Proofs.Entries
import ApiClient.Proofs.Xml.Shapes
import ApiClient.Proofs.Xml.Merging
import ApiClient.Proofs.Xml.Documents
import ApiClient.Proofs.Xml.Distinction
import ApiClient.Proofs.Xml.Insignificance
import ApiClient.Proofs.Xml.Lockstep
import ApiClient.Proofs.Xml.OpenElements
import ApiClient.Proofs.Xml.Indentation
