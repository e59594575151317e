import StreamTypes.Foreign
import StreamTypes.Main
import StreamTypes.Proofs.River.Gaps
import StreamTypes.Proofs.Graph.SameText
import StreamTypes.Proofs.River.Arena
import StreamTypes.Proofs.River.CanonicalText
import StreamTypes.Proofs.River.DepthBound
import StreamTypes.Proofs.River.ErrorReport
import StreamTypes.Proofs.River.Diagnosis
import StreamTypes.Proofs.Graph.Enclosure
import StreamTypes.Proofs.Data.Derivation
import StreamTypes.Proofs.Data.Evaluation
import StreamTypes.Proofs.Data.Acceptance
import StreamTypes.Proofs.CommandLine.Request
import StreamTypes.Proofs.Text.Blank
import StreamTypes.Proofs.CommandLine.FrontEnds
import StreamTypes.Proofs.Dot.Document
import StreamTypes.Proofs.Dot.Boundaries
import StreamTypes.Proofs.Graph.Palette
import StreamTypes.Proofs.Config.Acceptance
import StreamTypes.Proofs.Json.Export
import StreamTypes.Proofs.CommandLine.Caret
import StreamTypes.Proofs.CommandLine.Traces
import StreamTypes.Proofs.Progress
import StreamTypes.Proofs.Yaml.Keys
