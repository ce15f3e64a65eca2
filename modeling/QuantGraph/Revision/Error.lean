import QuantGraph.Graph.Error
import QuantGraph.Tensor.Folding

namespace QuantGraph

/-! Why a revision gives up. Only a failed search for a subgraph concerns the
one revision that met it; every other cause ends a whole run. -/

/-- One of the four limits of a fake quantization. -/
inductive LimitName where
  | inputLow | inputHigh | outputLow | outputHigh
  deriving DecidableEq, Repr

namespace LimitName

def text : LimitName → String
  | inputLow => "input low"
  | inputHigh => "input high"
  | outputLow => "output low"
  | outputHigh => "output high"

/-- The input slot of a fake quantization that reads the limit. -/
def slot : LimitName → Nat
  | inputLow => 1
  | inputHigh => 2
  | outputLow => 3
  | outputHigh => 4

end LimitName

/-- A quantization that is not supported. -/
inductive UnsupportedQuantization where
  | levels (node : String) (levels : Nat)
  | mixedLevels (concat : String)
  | notPerChannel (shape : Shape) (axis : Nat)
  deriving DecidableEq, Repr

def UnsupportedQuantization.message : UnsupportedQuantization → String
  | levels node count => node ++ " has " ++ toString count ++ " quantization levels"
  | mixedLevels concat =>
      "FakeQuantize producers of " ++ concat ++ " use different quantization levels"
  | notPerChannel shape axis =>
      "dequantization constant of shape " ++ bracketed shape ++
        " is not per-channel along axis " ++ toString axis

/-- An operation that is not what a revision needs. -/
inductive UnexpectedOperation where
  | nonConstantLimit (node : String) (limit : LimitName)
  | notFakeQuantize (node : String)
  | inputCount (node : String) (count : Nat)
  | branchNotMultiply (node : String)
  | scaleNotConstant (node : String)
  | biasNotConstant (node : String)
  | missingOutputType (node : String)
  | notAnInput (parent child : String)
  deriving DecidableEq, Repr

def UnexpectedOperation.message : UnexpectedOperation → String
  | nonConstantLimit node limit => node ++ " has a non-constant " ++ limit.text
  | notFakeQuantize node => node ++ " is not a FakeQuantize"
  | inputCount node count => node ++ " has " ++ toString count ++ " inputs"
  | branchNotMultiply node => node ++ ": branch is not a Multiply"
  | scaleNotConstant node => node ++ ": scale is not constant"
  | biasNotConstant node => node ++ ": bias is not constant"
  | missingOutputType node => node ++ ": missing output type"
  | notAnInput parent child => parent ++ " is not an input of " ++ child

/-- What keeps the surroundings of a Concat from being quantized together. -/
inductive SubgraphObstacle where
  | noDataInput (node : String)
  /-- A node that no longer exists has no kind. -/
  | foreignInput (node : String) (kind : Option OpKind)
  deriving DecidableEq, Repr

def SubgraphObstacle.message : SubgraphObstacle → String
  | noDataInput node => node ++ " has no data input"
  | foreignInput node kind =>
      let kindText := match kind with
        | some kind => kind.name
        | none => "removed"
      node ++ " (" ++ kindText ++ ") cannot feed a quantized Concat"

/-- A graph that cannot be changed as asked. -/
inductive BrokenGraph where
  | graph (error : GraphError)
  | broadcast (error : BroadcastError)
  | tensor (error : TensorError)
  | missingFakeQuantize (id : NodeId)
  | lostInput (node : String)
  | lostDequantization (node : String)
  deriving DecidableEq, Repr

def BrokenGraph.message : BrokenGraph → String
  | graph error => error.message
  | broadcast error => error.message
  | tensor error => error.message
  | missingFakeQuantize id => "FakeQuantize " ++ id.text ++ " does not exist"
  | lostInput node => node ++ " lost its input"
  | lostDequantization node => node ++ " lost its dequantization"

inductive RevisionError where
  | limitCardinality (node : String) (limit : LimitName) (count channels : Nat)
  | unexpectedRank (node : String) (rank : Nat)
  | missingFakeQuantizeTransformation
  | precisionOverrideUnsupported (node : String)
  | unsupported (cause : UnsupportedQuantization)
  | dequantizationNotFound (node : String)
  | unexpectedOperation (cause : UnexpectedOperation)
  | subgraph (obstacle : SubgraphObstacle)
  | graph (cause : BrokenGraph)
  deriving DecidableEq, Repr

namespace RevisionError

def message : RevisionError → String
  | limitCardinality node limit count channels =>
      "Unexpected " ++ limit.text ++ " values count " ++ toString count ++ " for " ++
        toString channels ++ " channels in " ++ node
  | unexpectedRank node rank => "Unexpected dimensions count " ++ toString rank ++ " in " ++ node
  | missingFakeQuantizeTransformation => "FakeQuantize transformation was not found"
  | precisionOverrideUnsupported node =>
      "Not possible to update precision for " ++ node ++
        ": operation does not support precision override"
  | unsupported cause => "Unsupported configuration: " ++ cause.message
  | dequantizationNotFound node => "Dequantization values are not found for " ++ node
  | unexpectedOperation cause => "Unexpected operation: " ++ cause.message
  | subgraph obstacle => "Subgraph discovery failed: " ++ obstacle.message
  | graph cause => "Graph error: " ++ cause.message

/-- The error concerns only the revision that met it. -/
def isRecoverable : RevisionError → Bool
  | subgraph _ => true
  | _ => false

end RevisionError

end QuantGraph
