import QuantGraph.ElementType

namespace QuantGraph

/-! What a transformation may do. -/

structure Policy where
  /-- Declare low precisions on revised nodes. -/
  updatePrecisions : Bool := true
  /-- Allow dequantization with a zero point. -/
  supportAsymmetric : Bool := true
  /-- The precisions accepted on activations, the preferred one first. -/
  activationPrecisions : List ElementType := [.u8, .i8]
  deriving DecidableEq, Repr, Inhabited

end QuantGraph
