import QuantGraph.OpKind
import QuantGraph.Tensor

namespace QuantGraph

/-! Operations with their attributes. -/

/-- The height and width of a pooling window. -/
structure Kernel where
  height : Nat
  width : Nat
  deriving DecidableEq, Repr

inductive Op (α : Type) where
  | parameter
  | constant (tensor : Tensor α)
  | result
  | convert (destination : ElementType)
  | add
  | subtract
  | multiply
  | divide
  /-- Inputs: data, input low, input high, output low, output high. -/
  | fakeQuantize (levels : Nat)
  | concat (axis : Nat)
  | convolution
  | groupConvolution
  | matMul
  | maxPool (kernel : Kernel)
  | avgPool (kernel : Kernel)
  /-- Enlarges the two trailing axes. -/
  | interpolate (scale : Nat)
  | relu
  | reshape (shape : Shape)
  | squeeze (axes : List Nat)
  | unsqueeze (axes : List Nat)
  | transpose (order : List Nat)
  deriving Repr, DecidableEq

namespace Op

def kind : Op α → OpKind
  | parameter => .parameter
  | constant _ => .constant
  | result => .result
  | convert _ => .convert
  | add => .add
  | subtract => .subtract
  | multiply => .multiply
  | divide => .divide
  | fakeQuantize _ => .fakeQuantize
  | concat _ => .concat
  | convolution => .convolution
  | groupConvolution => .groupConvolution
  | matMul => .matMul
  | maxPool _ => .maxPool
  | avgPool _ => .avgPool
  | interpolate _ => .interpolate
  | relu => .relu
  | reshape _ => .reshape
  | squeeze _ => .squeeze
  | unsqueeze _ => .unsqueeze
  | transpose _ => .transpose

/-- The tensor of a constant. -/
def constant? : Op α → Option (Tensor α)
  | constant tensor => some tensor
  | _ => none

/-- The number of levels of a fake quantization. -/
def levels? : Op α → Option Nat
  | fakeQuantize levels => some levels
  | _ => none

end Op

end QuantGraph
