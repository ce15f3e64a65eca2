import QuantGraph.NDArray
import QuantGraph.Scalar

namespace QuantGraph

/-! Operations that combine several elements into one: matrix products and
pooling. The order in which elements are combined is part of the definition. -/

namespace NDArray

variable [Scalar α]

/-- The product of two matrices, each element summed along the inner axis in
increasing order; nothing when the arguments are not matrices that fit. -/
def matMul? (left right : NDArray α) : Option (NDArray α) :=
  match left.shape, right.shape with
  | [rows, inner], [inner', columns] =>
      if inner = inner' then
        some (ofFn [rows, columns] fun index =>
          let row := index.getD 0 0
          let column := index.getD 1 0
          Scalar.dot ((List.range inner).map fun position => left.get [row, position])
            ((List.range inner).map fun position => right.get [position, column]))
      else none
  | _, _ => none

/-- The elements under the pooling window at a position of the pooled array,
row by row. -/
def window (array : NDArray α) (height width : Nat) (index : Index) : List α :=
  let batch := index.getD 0 0
  let channel := index.getD 1 0
  let top := index.getD 2 0 * height
  let left := index.getD 3 0 * width
  (List.range height).flatMap fun row =>
    (List.range width).map fun column => array.get [batch, channel, top + row, left + column]

/-- Pooling of the two trailing axes of a rank four array over windows that do
not overlap; nothing for another rank. -/
def pool? (array : NDArray α) (height width : Nat) (reduce : List α → α) :
    Option (NDArray α) :=
  match array.shape with
  | [batches, channels, rows, columns] =>
      some (ofFn [batches, channels, rows / height, columns / width] fun index =>
        reduce (array.window height width index))
  | _ => none

/-- The mean of a pooling window. -/
def mean (values : List α) : α := Scalar.sum values / Scalar.ofNat values.length

end NDArray

end QuantGraph
