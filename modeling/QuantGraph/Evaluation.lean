import QuantGraph.FakeQuantize
import QuantGraph.Graph.Order
import QuantGraph.NDArray.Reduction
import QuantGraph.Tensor.Folding

namespace QuantGraph

/-! The value of every node of a graph. Declared types matter only to a
conversion, which goes to its destination, and to a fake quantization, which
gives integers when its output type is integral. -/

/-- Why an operation has no value. -/
inductive OperationFault where
  | noFeed
  | missingInput (position : Nat)
  | broadcast (error : BroadcastError)
  | fewLevels (levels : Nat)
  | limitShape (limit data : Shape)
  | array (fault : ArrayFault)
  | poolingRank (shape : Shape)
  | unsupported (kind : OpKind)
  deriving DecidableEq, Repr

def OperationFault.message : OperationFault → String
  | noFeed => "No value fed for parameter"
  | missingInput position => "Missing input " ++ toString position
  | broadcast error => error.message
  | fewLevels levels => "FakeQuantize needs at least 2 levels, got " ++ toString levels
  | limitShape limit data =>
      "Limit shape " ++ bracketed limit ++ " does not broadcast to " ++ bracketed data
  | array fault => fault.message
  | poolingRank shape => "Pooling expects NCHW input, got " ++ bracketed shape
  | unsupported kind => kind.name ++ " is not supported by the reference evaluator"

/-- Why a graph has no values. -/
inductive EvaluationError where
  | graph (error : GraphError)
  | missingValue (name : String)
  | node (name : String) (kind : OpKind) (fault : OperationFault)
  | missingResult (id : NodeId)
  deriving DecidableEq, Repr

def EvaluationError.message : EvaluationError → String
  | graph error => error.message
  | missingValue name => "Missing value for input of " ++ name
  | node name kind fault => "Evaluating " ++ name ++ " (" ++ kind.name ++ "): " ++ fault.message
  | missingResult id => "Result " ++ id.text ++ " was not evaluated"

namespace Op

variable [Scalar α]

/-- The value of an operation on the values of its inputs. `integral` says
whether the output type is integral, `feed` is the value for a parameter. -/
def evaluate (op : Op α) (integral : Bool) (inputs : List (NDArray α))
    (feed : Option (NDArray α)) : Except OperationFault (NDArray α) := do
  let input (position : Nat) : Except OperationFault (NDArray α) :=
    match inputs[position]? with
    | some input => .ok input
    | none => .error (.missingInput position)
  let elementwise (binary : BinaryOp) : Except OperationFault (NDArray α) := do
    let left ← input 0
    let right ← input 1
    (NDArray.combine binary left right).mapError .broadcast
  let pool (kernel : Kernel) (reduce : List α → α) : Except OperationFault (NDArray α) := do
    let data ← input 0
    match data.pool? kernel.height kernel.width reduce with
    | some pooled => return pooled
    | none => throw (.poolingRank data.shape)
  match op with
  | .parameter =>
      match feed with
      | some value => return value
      | none => throw .noFeed
  | .constant tensor => return tensor.values
  | .result => input 0
  | .convert destination => do
      let data ← input 0
      return data.map destination.convert
  | .add => elementwise .add
  | .subtract => elementwise .subtract
  | .multiply => elementwise .multiply
  | .divide => elementwise .divide
  | .relu => do
      let data ← input 0
      return data.map fun value => Scalar.larger value 0
  | .fakeQuantize levels => do
      let data ← input 0
      let inputLow ← input 1
      let inputHigh ← input 2
      let outputLow ← input 3
      let outputHigh ← input 4
      let limits : LimitArrays α :=
        { inputLow := inputLow, inputHigh := inputHigh
          outputLow := outputLow, outputHigh := outputHigh }
      if levels < 2 then throw (.fewLevels levels)
      match limits.commonShape data.shape with
      | .ok shape =>
          if shape.IsAddressable then return limits.quantize levels integral data shape
          else throw (.broadcast (.tooLarge data.shape shape))
      | .error limit => throw (.limitShape limit data.shape)
  | .concat axis => (NDArray.concatenate axis inputs).mapError .array
  | .matMul => do
      let left ← input 0
      if left.shape.length ≠ 2 then throw (.array .incompatible)
      let right ← input 1
      match left.matMul? right with
      | some product => return product
      | none => throw (.array .incompatible)
  | .maxPool kernel => pool kernel Scalar.largest
  | .avgPool kernel => pool kernel NDArray.mean
  | .reshape shape => do
      let data ← input 0
      match data.reshape? shape with
      | some reshaped => return reshaped
      | none => throw (.array .incompatible)
  | .squeeze axes => do
      let data ← input 0
      return (StableSort.sortBy id axes).foldr (fun axis data => data.dropAxis axis) data
  | .unsqueeze axes => do
      let data ← input 0
      return (StableSort.sortBy id axes).foldl NDArray.insertAxis data
  | .transpose order => do
      let data ← input 0
      return data.permute order
  | .convolution => throw (.unsupported .convolution)
  | .groupConvolution => throw (.unsupported .groupConvolution)
  | .interpolate _ => throw (.unsupported .interpolate)

end Op

/-- Values for some nodes. -/
abbrev Assignment (α : Type) := NodeId → Option (NDArray α)

namespace Assignment

def none : Assignment α := fun _ => Option.none

/-- Give a node a value. -/
def set (values : Assignment α) (id : NodeId) (value : NDArray α) : Assignment α :=
  fun other => if other = id then some value else values other

@[simp] theorem set_same (values : Assignment α) (id : NodeId) (value : NDArray α) :
    values.set id value id = some value := by
  simp [set]

@[simp] theorem set_other (values : Assignment α) {id other : NodeId} (value : NDArray α)
    (different : other ≠ id) : values.set id value other = values other := by
  simp [set, different]

/-- The assignment that lists some values. A later entry for a node wins. -/
def ofList (entries : List (NodeId × NDArray α)) : Assignment α :=
  entries.foldl (fun values (id, value) => values.set id value) none

end Assignment

namespace Graph

variable [Scalar α]

/-- The value of a node, given the values of the nodes it reads. -/
def evaluateNode (graph : Graph α) (feeds values : Assignment α) (id : NodeId) :
    Except EvaluationError (NDArray α) :=
  match graph.node? id with
  | none => .error (.graph (.missingNode id))
  | some node => do
      let inputs ← (graph.inputs id).mapM fun output =>
        match values output.node with
        | some value => .ok value
        | none => .error (.missingValue node.name)
      (node.op.evaluate node.elementType.isIntegral inputs (feeds id)).mapError
        (.node node.name node.kind)

/-- Values for nodes in an order, each from those before it. -/
def evaluateAlong (graph : Graph α) (feeds : Assignment α) (order : List NodeId)
    (values : Assignment α) : Except EvaluationError (Assignment α) :=
  order.foldlM (fun values id => do
    let value ← graph.evaluateNode feeds values id
    return values.set id value) values

/-- The values of all nodes. `feeds` gives the values of the parameters. -/
def evaluate (graph : Graph α) (feeds : Assignment α) :
    Except EvaluationError (Assignment α) := do
  let order ← graph.topologicalOrder.mapError .graph
  graph.evaluateAlong feeds order .none

/-- The values that reach the results, by increasing index of the results. -/
def evaluateResults (graph : Graph α) (feeds : Assignment α) :
    Except EvaluationError (List (NDArray α)) := do
  let values ← graph.evaluate feeds
  graph.results.mapM fun id =>
    match values id with
    | some value => .ok value
    | none => .error (.missingResult id)

end Graph

end QuantGraph
