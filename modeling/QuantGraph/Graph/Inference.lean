import QuantGraph.Graph
import QuantGraph.NDArray.Layout

namespace QuantGraph

/-! The element type and shape of an operation's output, from those of its
inputs. -/

inductive InferenceError where
  | parameterWithoutType
  | missingInput (kind : OpKind) (position : Nat)
  | notBroadcastable (kind : OpKind) (left right : Shape)
  | fakeQuantizeInputs (count : Nat)
  | concatAxis (axis rank : Nat)
  | concatShapes (left right : Shape)
  | convolutionOperands (kind : OpKind)
  | matMulShapes (left right : Shape)
  | poolingOperand (kind : OpKind)
  | interpolateRank
  | reshapeSize (source target : Shape)
  | squeezeAxes (axes : List Nat) (shape : Shape)
  | unsqueezeAxis (axis : Nat)
  | transposeOrder (order : List Nat) (rank : Nat)
  deriving DecidableEq, Repr

namespace InferenceError

def message : InferenceError → String
  | parameterWithoutType => "Parameter requires an explicit output type and shape"
  | missingInput kind position => kind.name ++ " expects input " ++ toString position
  | notBroadcastable kind left right =>
      kind.name ++ ": shapes " ++ bracketed left ++ " and " ++ bracketed right ++
        " are not broadcastable"
  | fakeQuantizeInputs count => "FakeQuantize expects 5 inputs, got " ++ toString count
  | concatAxis axis rank =>
      "Concat axis " ++ toString axis ++ " is out of range for rank " ++ toString rank
  | concatShapes left right =>
      "Concat input shapes " ++ bracketed left ++ " and " ++ bracketed right ++
        " are incompatible"
  | convolutionOperands kind => kind.name ++ " expects NC... data and weights"
  | matMulShapes left right =>
      "MatMul shapes " ++ bracketed left ++ " and " ++ bracketed right ++ " are incompatible"
  | poolingOperand kind => kind.name ++ " expects NCHW input and a non-empty kernel"
  | interpolateRank => "Interpolate expects at least rank 3 input"
  | reshapeSize source target =>
      "Cannot reshape " ++ bracketed source ++ " to " ++ bracketed target
  | squeezeAxes axes shape =>
      "Cannot squeeze axes " ++ bracketed axes ++ " of " ++ bracketed shape
  | unsqueezeAxis axis => "Unsqueeze axis " ++ toString axis ++ " is out of range"
  | transposeOrder order rank =>
      "Invalid transpose order " ++ bracketed order ++ " for rank " ++ toString rank

end InferenceError

namespace Shape

/-- An extent as it is kept. Extents have 64 bits, and what a sum or a product has
beyond them is lost. -/
def kept (extent : Nat) : Nat := extent % 18446744073709551616

/-- The shape of arrays laid side by side. -/
def concatenated (axis : Nat) (first : Shape) (others : List Shape) :
    Except InferenceError Shape :=
  if first.length ≤ axis then .error (.concatAxis axis first.length)
  else
    others.foldlM (fun shape other =>
      if shape.length = other.length ∧ shape.eraseIdx axis = other.eraseIdx axis then
        .ok (shape.set axis (kept (shape.getD axis 0 + other.getD axis 0)))
      else .error (.concatShapes shape other)) first

/-- The shape of a product of matrices, or of a stack of them. -/
def multiplied (left right : Shape) : Except InferenceError Shape :=
  match left.reverse, right.reverse with
  | inner :: rows :: outer, columns :: inner' :: _ =>
      if inner = inner' then .ok ((columns :: rows :: outer).reverse)
      else .error (.matMulShapes left right)
  | _, _ => .error (.matMulShapes left right)

/-- The shape of a pooled array. -/
def pooled (kind : OpKind) (kernel : Kernel) : Shape → Except InferenceError Shape
  | [batches, channels, rows, columns] =>
      if kernel.height = 0 ∨ kernel.width = 0 then .error (.poolingOperand kind)
      else .ok [batches, channels, rows / kernel.height, columns / kernel.width]
  | _ => .error (.poolingOperand kind)

/-- The shape with both trailing axes enlarged. -/
def interpolated (scale : Nat) (shape : Shape) : Except InferenceError Shape :=
  match shape.reverse with
  | width :: height :: channels :: outer =>
      .ok ((kept (width * scale) :: kept (height * scale) :: channels :: outer).reverse)
  | _ => .error .interpolateRank

/-- The shape without some axes of extent one. -/
def squeezed (axes : List Nat) (shape : Shape) : Except InferenceError Shape :=
  if axes.all fun axis => shape[axis]? == some 1 then
    .ok ((shape.zipIdx.filter fun entry => !axes.contains entry.2).map Prod.fst)
  else .error (.squeezeAxes axes shape)

/-- The shape with axes of extent one put in, in increasing order. -/
def unsqueezed (axes : List Nat) (shape : Shape) : Except InferenceError Shape :=
  (StableSort.sortBy id axes).foldlM (fun shape axis =>
    if shape.length < axis then .error (.unsqueezeAxis axis)
    else .ok (shape.insertIdx axis 1)) shape

/-- The shape with its axes reordered. -/
def transposed (order : List Nat) (shape : Shape) : Except InferenceError Shape :=
  if IsAxisOrder order shape.length then .ok (shape.permute order)
  else .error (.transposeOrder order shape.length)

/-- The output shape of a convolution: the channels come from the weights. -/
def convolved (kind : OpKind) (data : Shape) (outChannels : Option Nat) :
    Except InferenceError Shape :=
  match outChannels with
  | some channels =>
      if data.length < 3 then .error (.convolutionOperands kind) else .ok (data.set 1 channels)
  | none => .error (.convolutionOperands kind)

end Shape

namespace Op

/-- The output of an operation. A parameter has no output to infer. -/
def infer (op : Op α) (inputs : List ValueType) : Except InferenceError ValueType := do
  let input (position : Nat) : Except InferenceError ValueType :=
    match inputs[position]? with
    | some input => .ok input
    | none => .error (.missingInput op.kind position)
  let elementwise : Except InferenceError ValueType := do
    let left ← input 0
    let right ← input 1
    match left.shape.broadcast right.shape with
    | some shape => return { left with shape := shape }
    | none => throw (.notBroadcastable op.kind left.shape right.shape)
  match op with
  | .parameter => throw .parameterWithoutType
  | .constant tensor => return { elementType := tensor.elementType, shape := tensor.shape }
  | .result | .relu => input 0
  | .convert destination => do
      let data ← input 0
      return { data with elementType := destination }
  | .add | .subtract | .multiply | .divide => elementwise
  | .fakeQuantize _ =>
      if inputs.length ≠ 5 then throw (.fakeQuantizeInputs inputs.length) else input 0
  | .concat axis => do
      let first ← input 0
      let shape ← Shape.concatenated axis first.shape ((inputs.drop 1).map ValueType.shape)
      return { first with shape := shape }
  | .convolution => do
      let data ← input 0
      let weights ← input 1
      let shape ← Shape.convolved .convolution data.shape weights.shape.head?
      return { data with shape := shape }
  | .groupConvolution => do
      let data ← input 0
      let weights ← input 1
      let outChannels := match weights.shape with
        | groups :: channels :: _ => some (Shape.kept (groups * channels))
        | shape => shape.head?
      let shape ← Shape.convolved .groupConvolution data.shape outChannels
      return { data with shape := shape }
  | .matMul => do
      let left ← input 0
      let right ← input 1
      let shape ← Shape.multiplied left.shape right.shape
      return { left with shape := shape }
  | .maxPool kernel | .avgPool kernel => do
      let data ← input 0
      let shape ← Shape.pooled op.kind kernel data.shape
      return { data with shape := shape }
  | .interpolate scale => do
      let data ← input 0
      let shape ← Shape.interpolated scale data.shape
      return { data with shape := shape }
  | .reshape shape => do
      let data ← input 0
      if Shape.kept data.shape.size = Shape.kept shape.size then
        return { data with shape := shape }
      else throw (.reshapeSize data.shape shape)
  | .squeeze axes => do
      let data ← input 0
      let shape ← Shape.squeezed axes data.shape
      return { data with shape := shape }
  | .unsqueeze axes => do
      let data ← input 0
      let shape ← Shape.unsqueezed axes data.shape
      return { data with shape := shape }
  | .transpose order => do
      let data ← input 0
      let shape ← Shape.transposed order data.shape
      return { data with shape := shape }

end Op

end QuantGraph
