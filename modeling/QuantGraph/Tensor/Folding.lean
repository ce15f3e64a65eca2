import QuantGraph.Tensor

namespace QuantGraph

/-! Folding of elementwise operations and conversions over constant tensors.
The result keeps the element type of the left operand. -/

/-- The elementwise operations on two operands. -/
inductive BinaryOp where
  | add | subtract | multiply | divide
  deriving DecidableEq, Repr

def BinaryOp.apply [Scalar α] : BinaryOp → α → α → α
  | .add, left, right => left + right
  | .subtract, left, right => left - right
  | .multiply, left, right => left * right
  | .divide, left, right => left / right

inductive BroadcastError where
  /-- The shapes have no common shape. -/
  | incompatible (left right : Shape)
  /-- The common shape of arrays cannot be addressed. -/
  | tooLarge (source target : Shape)
  deriving DecidableEq, Repr

def BroadcastError.message : BroadcastError → String
  | incompatible left right =>
      "Shapes " ++ bracketed left ++ " and " ++ bracketed right ++
        " are not broadcast compatible"
  | tooLarge source target =>
      "Cannot broadcast " ++ bracketed source ++ " to " ++ bracketed target

namespace NDArray

/-- An elementwise operation on two arrays, with broadcasting. -/
def combine [Scalar α] (op : BinaryOp) (left right : NDArray α) :
    Except BroadcastError (NDArray α) :=
  match zipWith? op.apply left right with
  | some array =>
      if array.shape.IsAddressable then .ok array
      else .error (.tooLarge left.shape array.shape)
  | none => .error (.incompatible left.shape right.shape)

end NDArray

namespace Tensor

variable [Scalar α]

/-- An elementwise operation on two tensors. -/
def combine (op : BinaryOp) (left right : Tensor α) : Except BroadcastError (Tensor α) :=
  (NDArray.combine op left.values right.values).map fun values =>
    { elementType := left.elementType, values := values }

def add : Tensor α → Tensor α → Except BroadcastError (Tensor α) := combine .add
def subtract : Tensor α → Tensor α → Except BroadcastError (Tensor α) := combine .subtract
def multiply : Tensor α → Tensor α → Except BroadcastError (Tensor α) := combine .multiply
def divide : Tensor α → Tensor α → Except BroadcastError (Tensor α) := combine .divide

/-- Convert every element to another element type. -/
def convert (tensor : Tensor α) (target : ElementType) : Tensor α :=
  { elementType := target, values := tensor.values.map target.convert }

/-- The offsets that are tried, in this order, when a tensor is rounded to an
element type by truncation. -/
def roundingOffsets : List α :=
  [0, Scalar.decimal 5 1, Scalar.decimal (-5) 1, Scalar.decimal 1 0]

/-- The tensor with an offset added to every element, converted. -/
def convertShifted (tensor : Tensor α) (target : ElementType) (offset : α) : Tensor α :=
  (tensor.map (· + offset)).convert target

/-- Every element of `candidate` is closer to that of `tensor` than a
tolerance. -/
def isWithin (tensor candidate : Tensor α) (tolerance : α) : Bool :=
  (candidate.toList.zip tensor.toList).all fun (converted, value) =>
    decide (Scalar.abs (converted - value) < tolerance)

/-- Convert a tensor under the first offset that keeps every element within the
tolerance; the tensor itself when no offset does. -/
def roundWithTolerance (tensor : Tensor α) (target : ElementType) (tolerance : α) :
    Tensor α :=
  let candidates := roundingOffsets.map (tensor.convertShifted target)
  (candidates.find? fun candidate => tensor.isWithin candidate tolerance).getD tensor

end Tensor

end QuantGraph
