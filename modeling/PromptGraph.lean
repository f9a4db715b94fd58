import PromptGraph.Command.Rehearsal
import PromptGraph.Editor.Printer
import PromptGraph.Main
import PromptGraph.Proofs.Assoc
import PromptGraph.Proofs.Command.Delivery
import PromptGraph.Proofs.Command.Outputs
import PromptGraph.Proofs.Editor.Codec
import PromptGraph.Proofs.Editor.Id
import PromptGraph.Proofs.Editor.IdCodec
import PromptGraph.Proofs.Editor.Reader
import PromptGraph.Proofs.Execution.Codec
import PromptGraph.Proofs.Execution.Countdown
import PromptGraph.Proofs.Execution.Edit
import PromptGraph.Proofs.Execution.Executability
import PromptGraph.Proofs.Execution.Validation
import PromptGraph.Proofs.Flatten.Accounting
import PromptGraph.Proofs.Flatten.Arrangement
import PromptGraph.Proofs.Flatten.Chain
import PromptGraph.Proofs.Flatten.Count
import PromptGraph.Proofs.Flatten.Coverage
import PromptGraph.Proofs.Flatten.Dangling
import PromptGraph.Proofs.Flatten.DataFlow
import PromptGraph.Proofs.Flatten.FixedPoint
import PromptGraph.Proofs.Flatten.FlatId
import PromptGraph.Proofs.Flatten.Idempotence
import PromptGraph.Proofs.Flatten.Inputs
import PromptGraph.Proofs.Flatten.InstanceOrder
import PromptGraph.Proofs.Flatten.Level
import PromptGraph.Proofs.Flatten.Occurrences
import PromptGraph.Proofs.Flatten.OrderIndependence
import PromptGraph.Proofs.Flatten.OutputPorts
import PromptGraph.Proofs.Flatten.Precedence
import PromptGraph.Proofs.Flatten.Provenance
import PromptGraph.Proofs.Flatten.Rereading
import PromptGraph.Proofs.Flatten.Retouch
import PromptGraph.Proofs.Flatten.Rounds
import PromptGraph.Proofs.Flatten.Run
import PromptGraph.Proofs.Flatten.Settle
import PromptGraph.Proofs.Flatten.Source
import PromptGraph.Proofs.Flatten.Storage
import PromptGraph.Proofs.Flatten.Values
import PromptGraph.Proofs.Flatten.Workflow
import PromptGraph.Proofs.Json.Canonical
import PromptGraph.Proofs.Json.Decode
import PromptGraph.Proofs.Json.Numeral
import PromptGraph.Proofs.Json.Quoting
import PromptGraph.Proofs.Json.RoundTrip
import PromptGraph.Proofs.KeyOrder
import PromptGraph.Proofs.Library.Format
import PromptGraph.Proofs.NodeType.Cache
import PromptGraph.Proofs.NodeType.Fallback
import PromptGraph.Proofs.NodeType.Selection
import PromptGraph.Proofs.Number.Integral
import PromptGraph.Proofs.Number.Positional
import PromptGraph.Proofs.Number.Rounding
import PromptGraph.Proofs.Number.Shortest
import PromptGraph.Proofs.Path
import PromptGraph.Proofs.Server.Completion
import PromptGraph.Proofs.Server.Foreign
import PromptGraph.Proofs.Server.Judgement
import PromptGraph.Proofs.Server.Replay
import PromptGraph.Proofs.Simplify.Arrival
import PromptGraph.Proofs.Simplify.Collapse
import PromptGraph.Proofs.Simplify.Consistency
import PromptGraph.Proofs.Simplify.Idempotence
import PromptGraph.Proofs.Simplify.Inlining
import PromptGraph.Proofs.Simplify.Promotion
import PromptGraph.Proofs.Simplify.Removal
import PromptGraph.Proofs.Simplify.VirtualWire
import PromptGraph.Proofs.Telemetry.Interleaving
import PromptGraph.Proofs.Text.Octets
import PromptGraph.Proofs.Text.Quoted
import PromptGraph.Telemetry.Metrics
import PromptGraph.Telemetry.Tracing
import PromptGraph.Proofs.Execution.IdOrder
import PromptGraph.Proofs.Flatten.Twins
import PromptGraph.Proofs.NodeType.InputOrder
import PromptGraph.Proofs.Editor.Links
