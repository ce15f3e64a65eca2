import QuantGraph.Quantization.Limits
import QuantGraph.Quantization.Policy

namespace QuantGraph

/-! The low precision that a quantized tensor is given, and the range of
integers that stands for its output interval. -/

structure TargetRange (α : Type) where
  precision : ElementType
  min : α
  max : α
  hasZeroPoint : Bool
  deriving Repr, DecidableEq

namespace TargetRange

variable [Scalar α]

/-- The integers that a precision offers for a number of levels, in as many
steps as there are levels less one. -/
def bounds (precision : ElementType) (levels : Nat) : Option (α × α) :=
  if levels = 0 then none
  else
    let span : α := Scalar.ofNat (levels - 1)
    match precision with
    | .u8 => some (0, span)
    | .i8 =>
        let low : α := -Scalar.ofNat (levels / 2)
        some (low, low + span)
    | .f32 | .f16 | .i64 | .i32 => none

/-- How far the ratio of a signed interval may be from that of the range while
the interval still counts as symmetric. -/
def asymmetryThreshold : α := Scalar.decimal 1 2

/-- No output interval reaches below zero. -/
def isUnsigned (limits : QuantizationLimits α) : Bool :=
  limits.outputLow.all fun low => decide (0 ≤ low)

/-- The precision that suits the sign of the output intervals. -/
def preferredPrecision (limits : QuantizationLimits α) : ElementType :=
  if isUnsigned limits then .u8 else .i8

/-- An output interval needs a zero point in the preferred precision, whose
range is `[min, max]`. -/
def needsZeroPoint (limits : QuantizationLimits α) (min max : α) : Bool :=
  if isUnsigned limits then
    limits.outputLow.any fun low => Scalar.differs low 0
  else
    let expected := min / max
    (limits.outputLow.zip limits.outputHigh).any fun (low, high) =>
      high == 0 || decide (asymmetryThreshold < Scalar.abs (low / high - expected))

/-- The target for a fake quantization under a policy. There is none when the
number of levels is unsupported, when the policy accepts no precision that
fits, or when a zero point is needed and not allowed. -/
def resolve (limits : QuantizationLimits α) (policy : Policy) : Option (TargetRange α) := do
  guard (QuantizationLimits.supportsLevels limits.levels)
  let preferred := preferredPrecision limits
  let (preferredMin, preferredMax) ← (bounds preferred limits.levels : Option (α × α))
  let accepted := policy.activationPrecisions.contains preferred
  let precision ←
    if accepted then some preferred else policy.activationPrecisions.head?
  let hasZeroPoint := !accepted || needsZeroPoint limits preferredMin preferredMax
  let (min, max) ← bounds precision limits.levels
  guard (!hasZeroPoint || policy.supportAsymmetric)
  return { precision := precision, min := min, max := max, hasZeroPoint := hasZeroPoint }

end TargetRange

end QuantGraph
