import QuantGraph.OpKind
import QuantGraph.Quantization.Policy

namespace QuantGraph

/-! Transformations by name: the rule that is tried, and the policy under which
it is tried. -/

/-- The rules. Each is tried on nodes of one kind. -/
inductive Rule where
  | add
  | avgPool
  | concat
  | concatMultiChannels
  | fakeQuantize
  | fuseConvert
  | fuseFakeQuantize
  | fuseMultiplyToFakeQuantize
  | fuseSubtractToFakeQuantize
  /-- For an operation that only moves elements. -/
  | layout (kind : OpKind)
  | matMul
  | maxPool
  | multiply
  | relu
  | subtractMultiplyToMultiplyAdd
  deriving DecidableEq, Repr

namespace Rule

def name : Rule → String
  | add => "Add"
  | avgPool => "AvgPool"
  | concat => "Concat"
  | concatMultiChannels => "ConcatMultiChannels"
  | fakeQuantize => "FakeQuantize"
  | fuseConvert => "FuseConvert"
  | fuseFakeQuantize => "FuseFakeQuantize"
  | fuseMultiplyToFakeQuantize => "FuseMultiplyToFakeQuantize"
  | fuseSubtractToFakeQuantize => "FuseSubtractToFakeQuantize"
  | layout kind => kind.name
  | matMul => "MatMul"
  | maxPool => "MaxPool"
  | multiply => "Multiply"
  | relu => "Relu"
  | subtractMultiplyToMultiplyAdd => "SubtractMultiplyToMultiplyAdd"

/-- The rules that are determined by their name alone. -/
def named : List Rule :=
  [add, avgPool, concat, concatMultiChannels, fakeQuantize, fuseConvert, fuseFakeQuantize,
    fuseMultiplyToFakeQuantize, fuseSubtractToFakeQuantize, matMul, maxPool, multiply, relu,
    subtractMultiplyToMultiplyAdd]

/-- The rule that a name alone determines, if there is one. -/
def ofName? (text : String) : Option Rule := named.find? fun rule => rule.name == text

/-- The kind of node on which the rule is tried. -/
def matchedKind : Rule → OpKind
  | add => .add
  | avgPool => .avgPool
  | concat | concatMultiChannels => .concat
  | fakeQuantize | fuseFakeQuantize => .fakeQuantize
  | fuseConvert | fuseMultiplyToFakeQuantize | multiply | subtractMultiplyToMultiplyAdd =>
      .multiply
  | fuseSubtractToFakeQuantize => .subtract
  | layout kind => kind
  | matMul => .matMul
  | maxPool => .maxPool
  | relu => .relu

/-- The operation gives out the precision that it takes in. -/
def preservesPrecision : Rule → Bool
  | avgPool | concat | concatMultiChannels | layout _ | maxPool | relu => true
  | add | fakeQuantize | fuseConvert | fuseFakeQuantize | fuseMultiplyToFakeQuantize
  | fuseSubtractToFakeQuantize | matMul | multiply | subtractMultiplyToMultiplyAdd => false

/-- The operation can run on quantized inputs. -/
def isQuantized : Rule → Bool
  | fuseConvert => false
  | _ => true

end Rule

structure Transformation where
  rule : Rule
  policy : Policy
  deriving DecidableEq, Repr

namespace Transformation

def name (transformation : Transformation) : String := transformation.rule.name

def matchedKind (transformation : Transformation) : OpKind := transformation.rule.matchedKind

/-- The precisions accepted on activations. -/
def activationPrecisions (transformation : Transformation) : List ElementType :=
  transformation.policy.activationPrecisions

end Transformation

end QuantGraph
