import QuantGraph.Dequantization
import QuantGraph.Dequantization.Chain
import QuantGraph.Dequantization.Decomposition
import QuantGraph.Dequantization.Move
import QuantGraph.Dequantization.Simplify
import QuantGraph.ElementType
import QuantGraph.Evaluation
import QuantGraph.FakeQuantize
import QuantGraph.Graph
import QuantGraph.Graph.Build
import QuantGraph.Graph.Downstream
import QuantGraph.Graph.Edit
import QuantGraph.Graph.Error
import QuantGraph.Graph.Inference
import QuantGraph.Graph.Order
import QuantGraph.Graph.Statistics
import QuantGraph.Joint.Assembly
import QuantGraph.Joint.Cache
import QuantGraph.Joint.PerChannel
import QuantGraph.Joint.Producers
import QuantGraph.Joint.Rule
import QuantGraph.Joint.SharedScale
import QuantGraph.Joint.Subgraph
import QuantGraph.NDArray
import QuantGraph.NDArray.Fault
import QuantGraph.NDArray.Layout
import QuantGraph.NDArray.Reduction
import QuantGraph.NameError
import QuantGraph.Op
import QuantGraph.OpKind
import QuantGraph.Proofs.Dequantization.Attachment
import QuantGraph.Proofs.Dequantization.Decomposition
import QuantGraph.Proofs.Dequantization.Denotation
import QuantGraph.Proofs.Dequantization.Division
import QuantGraph.Proofs.Dequantization.EarlySubtract
import QuantGraph.Proofs.Dequantization.EarlySubtractValues
import QuantGraph.Proofs.Dequantization.Exactness
import QuantGraph.Proofs.Dequantization.Exchange
import QuantGraph.Proofs.Dequantization.Failure
import QuantGraph.Proofs.Dequantization.MergedMultiplies
import QuantGraph.Proofs.Dequantization.Move
import QuantGraph.Proofs.Dequantization.Patterns
import QuantGraph.Proofs.Dequantization.Recovery
import QuantGraph.Proofs.Dequantization.Restoration
import QuantGraph.Proofs.Dequantization.Shapes
import QuantGraph.Proofs.Dequantization.Simplify
import QuantGraph.Proofs.Dequantization.Values
import QuantGraph.Proofs.Evaluation.Commutation
import QuantGraph.Proofs.Evaluation.Congruence
import QuantGraph.Proofs.Evaluation.Derivation
import QuantGraph.Proofs.Evaluation.Elements
import QuantGraph.Proofs.Evaluation.Inference
import QuantGraph.Proofs.Evaluation.Operation
import QuantGraph.Proofs.Evaluation.Shapes
import QuantGraph.Proofs.Evaluation.Solution
import QuantGraph.Proofs.Evaluation.Substitution
import QuantGraph.Proofs.Evaluation.Values
import QuantGraph.Proofs.Graph.Addition
import QuantGraph.Proofs.Graph.Construction
import QuantGraph.Proofs.Graph.Creation
import QuantGraph.Proofs.Graph.Downstream
import QuantGraph.Proofs.Graph.Ends
import QuantGraph.Proofs.Graph.Evolution
import QuantGraph.Proofs.Graph.Growth
import QuantGraph.Proofs.Graph.Identity
import QuantGraph.Proofs.Graph.InputOrder
import QuantGraph.Proofs.Graph.Mutation
import QuantGraph.Proofs.Graph.Order
import QuantGraph.Proofs.Graph.Pruning
import QuantGraph.Proofs.Graph.Replacement
import QuantGraph.Proofs.Graph.Slots
import QuantGraph.Proofs.Graph.Usage
import QuantGraph.Proofs.Graph.WellFormed
import QuantGraph.Proofs.Joint.Assembly
import QuantGraph.Proofs.Joint.Carried
import QuantGraph.Proofs.Joint.ChannelValues
import QuantGraph.Proofs.Joint.Channels
import QuantGraph.Proofs.Joint.Closure
import QuantGraph.Proofs.Joint.Creation
import QuantGraph.Proofs.Joint.ErrorBound
import QuantGraph.Proofs.Joint.Following
import QuantGraph.Proofs.Joint.Insertion
import QuantGraph.Proofs.Joint.Isolation
import QuantGraph.Proofs.Joint.Narrowing
import QuantGraph.Proofs.Joint.Passes
import QuantGraph.Proofs.Joint.Quantized
import QuantGraph.Proofs.Joint.RawValues
import QuantGraph.Proofs.Joint.Renewal
import QuantGraph.Proofs.Joint.Requantization
import QuantGraph.Proofs.Joint.RestoredReads
import QuantGraph.Proofs.Joint.Rule
import QuantGraph.Proofs.Joint.SharedScale
import QuantGraph.Proofs.Joint.SignedScale
import QuantGraph.Proofs.Joint.Stems
import QuantGraph.Proofs.Joint.Subgraph
import QuantGraph.Proofs.Joint.Usage
import QuantGraph.Proofs.Joint.Values
import QuantGraph.Proofs.NDArray.Broadcasting
import QuantGraph.Proofs.NDArray.Closeness
import QuantGraph.Proofs.NDArray.Dequantization
import QuantGraph.Proofs.NDArray.Layout
import QuantGraph.Proofs.NDArray.Reading
import QuantGraph.Proofs.NDArray.Reduction
import QuantGraph.Proofs.NDArray.Regrouping
import QuantGraph.Proofs.NDArray.Shapes
import QuantGraph.Proofs.Outcome
import QuantGraph.Proofs.Quantization.Axes
import QuantGraph.Proofs.Quantization.Folding
import QuantGraph.Proofs.Quantization.Levels
import QuantGraph.Proofs.Quantization.Projection
import QuantGraph.Proofs.Quantization.Reading
import QuantGraph.Proofs.Quantization.Scaling
import QuantGraph.Proofs.Quantization.TargetRange
import QuantGraph.Proofs.Registry
import QuantGraph.Proofs.Revision.Creation
import QuantGraph.Proofs.Revision.Ensures
import QuantGraph.Proofs.Revision.Failure
import QuantGraph.Proofs.Revision.Primitives
import QuantGraph.Proofs.Revision.Records
import QuantGraph.Proofs.Revision.Success
import QuantGraph.Proofs.Revision.Usage
import QuantGraph.Proofs.Rules.AcceptedPrecision
import QuantGraph.Proofs.Rules.AffineValues
import QuantGraph.Proofs.Rules.Collapse
import QuantGraph.Proofs.Rules.Creation
import QuantGraph.Proofs.Rules.FusedValues
import QuantGraph.Proofs.Rules.InputLimitValues
import QuantGraph.Proofs.Rules.LayoutValues
import QuantGraph.Proofs.Rules.LimitFusion
import QuantGraph.Proofs.Rules.MovedValues
import QuantGraph.Proofs.Rules.OutputLimitValues
import QuantGraph.Proofs.Rules.Propagation
import QuantGraph.Proofs.Rules.Quantization
import QuantGraph.Proofs.Rules.Reassociation
import QuantGraph.Proofs.Rules.RegroupedValues
import QuantGraph.Proofs.Rules.Shapes
import QuantGraph.Proofs.Rules.Usage
import QuantGraph.Proofs.Run.Apply
import QuantGraph.Proofs.Run.Attempts
import QuantGraph.Proofs.Run.Calls
import QuantGraph.Proofs.Run.Once
import QuantGraph.Proofs.Run.Passes
import QuantGraph.Proofs.Run.Relaxation
import QuantGraph.Proofs.Run.Reporting
import QuantGraph.Proofs.Run.Results
import QuantGraph.Proofs.Run.State
import QuantGraph.Proofs.Run.Usage
import QuantGraph.Proofs.Run.Visits
import QuantGraph.Proofs.Run.WellFormed
import QuantGraph.Proofs.Scalar.Exact
import QuantGraph.Proofs.Shape.Stretching
import QuantGraph.Proofs.Tensor.OneSigned
import QuantGraph.Proofs.Tensor.Rounding
import QuantGraph.Quantization.Folding
import QuantGraph.Quantization.Limits
import QuantGraph.Quantization.Policy
import QuantGraph.Quantization.TargetRange
import QuantGraph.Registry
import QuantGraph.Revision
import QuantGraph.Revision.Error
import QuantGraph.Rules.LimitFusion
import QuantGraph.Rules.Propagation
import QuantGraph.Rules.Quantization
import QuantGraph.Rules.Reassociation
import QuantGraph.Run
import QuantGraph.Run.Apply
import QuantGraph.Run.Report
import QuantGraph.Run.State
import QuantGraph.Scalar
import QuantGraph.Scalar.Exact
import QuantGraph.Scalar.Single
import QuantGraph.Settings
import QuantGraph.Settings.File
import QuantGraph.Shape
import QuantGraph.StableSort
import QuantGraph.Tensor
import QuantGraph.Tensor.Folding
import QuantGraph.Toml.Document
import QuantGraph.Toml.Literal
import QuantGraph.Toml.Quoted
import QuantGraph.Toml.Reading
import QuantGraph.Toml.Spacing
import QuantGraph.Toml.Value
import QuantGraph.Transformation
import QuantGraph.Proofs.Graph.DeadClosure
import QuantGraph.Proofs.Registry.EditOrder
import QuantGraph.Proofs.Settings.Entries
import QuantGraph.Proofs.Settings.RoundTrip
import QuantGraph.Proofs.Settings.Section
