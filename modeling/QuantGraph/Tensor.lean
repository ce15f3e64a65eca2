import QuantGraph.ElementType
import QuantGraph.NDArray
import QuantGraph.NDArray.Fault

namespace QuantGraph

/-! Constant tensors: an array of values together with the element type it is
declared to have. -/

@[ext] structure Tensor (α : Type) where
  elementType : ElementType
  values : NDArray α
  deriving Repr, DecidableEq

/-- Values that do not fill a shape. -/
structure TensorError where
  shape : Shape
  fault : ArrayFault
  deriving DecidableEq, Repr

def TensorError.message (error : TensorError) : String :=
  "Invalid constant shape " ++ bracketed error.shape ++ ": " ++ error.fault.message

namespace Tensor

/-- The tensor with given elements in row-major order. -/
def ofList (elementType : ElementType) (shape : Shape) (values : List α) :
    Except TensorError (Tensor α) :=
  if ¬ shape.IsAddressable then .error { shape := shape, fault := .overflow }
  else
    match NDArray.ofList? shape values with
    | some array => .ok { elementType := elementType, values := array }
    | none =>
        .error
          { shape := shape
            fault := if values.length < shape.size then .outOfBounds else .incompatible }

/-- A tensor without axes. -/
def scalar (elementType : ElementType) (value : α) : Tensor α :=
  { elementType := elementType, values := .scalar value }

def shape (tensor : Tensor α) : Shape := tensor.values.shape

def size (tensor : Tensor α) : Nat := tensor.values.size

def isEmpty (tensor : Tensor α) : Bool := tensor.size == 0

/-- The elements in row-major order. -/
def toList (tensor : Tensor α) : List α := tensor.values.toList

def first? (tensor : Tensor α) : Option α := tensor.toList.head?

/-- The same values, declared to have another element type. -/
def withElementType (tensor : Tensor α) (elementType : ElementType) : Tensor α :=
  { tensor with elementType := elementType }

/-- Apply a function to every element and keep the element type. -/
def map (transform : α → α) (tensor : Tensor α) : Tensor α :=
  { tensor with values := tensor.values.map transform }

variable [Scalar α]

/-- There is an element, and all elements are the same. -/
def isUniform (tensor : Tensor α) : Bool :=
  match tensor.toList with
  | [] => false
  | first :: rest => rest.all fun value => Scalar.identical value first

/-- The single value of a uniform tensor, as a tensor without axes. -/
def toScalar? (tensor : Tensor α) : Option (Tensor α) :=
  if tensor.isUniform then tensor.first?.map (scalar tensor.elementType) else none

/-- A uniform tensor without its axes; any other tensor as it is. -/
def collapse (tensor : Tensor α) : Tensor α := tensor.toScalar?.getD tensor

/-- There is an element, and every element equals `value`. -/
def isEqualTo (tensor : Tensor α) (value : α) : Bool :=
  !tensor.isEmpty && tensor.toList.all (· == value)

/-- The distance from zero at which a shift no longer counts. -/
def zeroTolerance : α := Scalar.decimal 1 6

/-- There is an element, and every element is within the tolerance of zero. -/
def isNearZero (tensor : Tensor α) : Bool :=
  !tensor.isEmpty && tensor.toList.all fun value => decide (Scalar.abs value ≤ zeroTolerance)

end Tensor

end QuantGraph
