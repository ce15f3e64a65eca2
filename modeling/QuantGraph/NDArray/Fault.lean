namespace QuantGraph

/-! The ways in which an array operation can fail on the shapes it is given. -/

inductive ArrayFault where
  /-- The extents multiply past what can be addressed. -/
  | overflow
  /-- A shape needs more elements than there are, or an axis does not exist. -/
  | outOfBounds
  /-- Shapes that had to agree do not. -/
  | incompatible
  /-- The operation needs at least one array. -/
  | unsupported
  deriving DecidableEq, Repr

namespace ArrayFault

def message : ArrayFault → String
  | overflow => "ShapeError/Overflow: arithmetic overflow"
  | outOfBounds => "ShapeError/OutOfBounds: out of bounds indexing"
  | incompatible => "ShapeError/IncompatibleShape: incompatible shapes"
  | unsupported => "ShapeError/Unsupported: unsupported operation"

end ArrayFault

end QuantGraph
