import WpConnectorUtils.Codec.Grammar
import WpConnectorUtils.Codec.Authenticity
import WpConnectorUtils.Codec.RoundTrip
import WpConnectorUtils.Codec.Failures
import WpConnectorUtils.Codec.Refinement
import WpConnectorUtils.Codec.Statistics
import WpConnectorUtils.Codec.Chunking
import WpConnectorUtils.Codec.Mismatch
import WpConnectorUtils.Codec.Losses
import WpConnectorUtils.Codec.Messages
import WpConnectorUtils.Codec.Conduct
import WpConnectorUtils.Codec.Nonces
import WpConnectorUtils.Codec.Sharing
import WpConnectorUtils.Codec.Renewal
import WpConnectorUtils.Codec.Opening
import WpConnectorUtils.Arrow.Frame
import WpConnectorUtils.Arrow.Splitter
import WpConnectorUtils.Arrow.Encoders
import WpConnectorUtils.Arrow.Table
import WpConnectorUtils.Ndjson.Contract
import WpConnectorUtils.Ndjson.SilentNulls
import WpConnectorUtils.Ndjson.Timestamps
import WpConnectorUtils.Ndjson.Epochs
import WpConnectorUtils.Ndjson.Outcomes
import WpConnectorUtils.Ndjson.Rows
import WpConnectorUtils.Batch
import WpConnectorUtils.Pipeline
import WpConnectorUtils.Export
