import QuantGraph.Scalar

namespace QuantGraph

/-! Element types of tensors. Values are always held as scalars; the element
type says how a conversion rounds and saturates them. -/

inductive ElementType where
  | f32 | f16 | i64 | i32 | i8 | u8
  deriving DecidableEq, Repr, Inhabited

namespace ElementType

def all : List ElementType := [f32, f16, i64, i32, i8, u8]

def name : ElementType → String
  | f32 => "f32"
  | f16 => "f16"
  | i64 => "i64"
  | i32 => "i32"
  | i8 => "i8"
  | u8 => "u8"

/-- The element type of a given name, if there is one. -/
def ofName? (text : String) : Option ElementType :=
  all.find? fun elementType => elementType.name == text

example : ofName? "i8" = some i8 ∧ ofName? "I8" = none := by decide

def isReal : ElementType → Bool
  | f32 | f16 => true
  | i64 | i32 | i8 | u8 => false

def isIntegral (elementType : ElementType) : Bool := !elementType.isReal

def isSigned : ElementType → Bool
  | u8 => false
  | f32 | f16 | i64 | i32 | i8 => true

/-- The least and the largest integer of an integral type. -/
def integerBounds : ElementType → Option (Int × Int)
  | u8 => some (0, 255)
  | i8 => some (-128, 127)
  | i32 => some (-2147483648, 2147483647)
  | i64 => some (-9223372036854775808, 9223372036854775807)
  | f32 | f16 => none

/-- The values at which a conversion to an integral type saturates. -/
def bounds [Scalar α] (elementType : ElementType) : Option (α × α) :=
  elementType.integerBounds.map fun (low, high) => (Scalar.ofInt low, Scalar.ofInt high)

/-- Convert one value: truncate and saturate for an integral target, keep the
value for a real one. -/
def convert [Scalar α] (target : ElementType) (value : α) : α :=
  match (target.bounds : Option (α × α)) with
  | some (low, high) => Scalar.clamp (Scalar.trunc value) low high
  | none => value

end ElementType

end QuantGraph
