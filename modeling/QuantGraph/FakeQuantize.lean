import QuantGraph.NDArray.Layout
import QuantGraph.Scalar

namespace QuantGraph

/-! Fake quantization: values are clipped to an input interval, moved to the
nearest of equally spaced levels, and mapped to an output interval. -/

/-- The limits that apply to one value. -/
structure Interval (α : Type) where
  inputLow : α
  inputHigh : α
  outputLow : α
  outputHigh : α
  deriving Repr

namespace Interval

variable [Scalar α]

/-- The image of a value under fake quantization with a number of levels. -/
def project (interval : Interval α) (levels : Nat) (value : α) : α :=
  if value ≤ interval.inputLow then interval.outputLow
  else if interval.inputHigh < value then interval.outputHigh
  else
    Scalar.round ((value - interval.inputLow) / (interval.inputHigh - interval.inputLow) *
        Scalar.ofNat (levels - 1)) / Scalar.ofNat (levels - 1) *
      (interval.outputHigh - interval.outputLow) + interval.outputLow

/-- The image of a value, rounded to an integer if asked for. -/
def quantize (interval : Interval α) (levels : Nat) (rounding : Bool) (value : α) : α :=
  let image := interval.project levels value
  if rounding then Scalar.round image else image

end Interval

/-- The four limits of a fake quantization as arrays. -/
structure LimitArrays (α : Type) where
  inputLow : NDArray α
  inputHigh : NDArray α
  outputLow : NDArray α
  outputHigh : NDArray α

namespace LimitArrays

def toList (limits : LimitArrays α) : List (NDArray α) :=
  [limits.inputLow, limits.inputHigh, limits.outputLow, limits.outputHigh]

/-- The common shape of data and limits, or the first limit that does not
broadcast with the data and the limits before it. -/
def commonShape (limits : LimitArrays α) (data : Shape) : Except Shape Shape :=
  limits.toList.foldlM (fun shape limit =>
    match shape.broadcast limit.shape with
    | some shape => .ok shape
    | none => .error limit.shape) data

variable [Scalar α]

/-- The limits for a position of the common shape. -/
def intervalAt (limits : LimitArrays α) (index : Index) : Interval α :=
  let value (limit : NDArray α) := limit.get (limit.shape.stretchedIndex index)
  { inputLow := value limits.inputLow
    inputHigh := value limits.inputHigh
    outputLow := value limits.outputLow
    outputHigh := value limits.outputHigh }

/-- Quantize data of a shape that broadcasts with the limits to `shape`. -/
def quantize (limits : LimitArrays α) (levels : Nat) (rounding : Bool) (data : NDArray α)
    (shape : Shape) : NDArray α :=
  .ofFn shape fun index =>
    (limits.intervalAt index).quantize levels rounding
      (data.get (data.shape.stretchedIndex index))

end LimitArrays

end QuantGraph
