import QuantGraph.Scalar

namespace QuantGraph

/-! Single precision. Every operation is one IEEE 754 operation on 32 bits; no
two of them are fused, and none is computed in a wider format.

A value is its bits: constants are compared by their bits, and what is not a
number has many of them. An operation on something that is not a number returns
it. -/

structure Single where
  bits : UInt32
  deriving DecidableEq, Repr

namespace Single

/-- The value as a number. Everything that is not a number counts as one value. -/
def number (single : Single) : Float32 := Float32.ofBits single.bits

def isNaN (single : Single) : Bool := single.number.isNaN

/-- What an operation on numbers gives when it has no result. -/
def invalid : Single := { bits := 0xffc00000 }

def ofNumber (number : Float32) : Single :=
  if number.isNaN then invalid else { bits := number.toBits }

/-- What an operation makes of an operand that is not a number: it sets the bit
without which the value would raise an alarm. -/
def quiet (single : Single) : Single := { bits := single.bits ||| 0x00400000 }

/-- An operation on one number. -/
def lift (operation : Float32 → Float32) (operand : Single) : Single :=
  if operand.isNaN then operand.quiet else ofNumber (operation operand.number)

/-- An operation on two numbers. Of two operands that are not numbers the first
is returned. -/
def lift₂ (operation : Float32 → Float32 → Float32) (left right : Single) : Single :=
  if left.isNaN then left.quiet
  else if right.isNaN then right.quiet
  else ofNumber (operation left.number right.number)

def neg (single : Single) : Single := { bits := single.bits ^^^ 0x80000000 }

def abs (single : Single) : Single := { bits := single.bits &&& 0x7fffffff }

/-- The integer part, with the sign of the argument. -/
def trunc (single : Single) : Single :=
  single.lift fun number => if number < 0 then number.ceil else number.floor

instance : LE Single := ⟨fun left right => left.number ≤ right.number⟩
instance : LT Single := ⟨fun left right => left.number < right.number⟩

instance (left right : Single) : Decidable (left ≤ right) :=
  inferInstanceAs (Decidable (left.number ≤ right.number))

instance (left right : Single) : Decidable (left < right) :=
  inferInstanceAs (Decidable (left.number < right.number))

/-- The larger of two numbers; something that is not a number is ignored. -/
def larger (left right : Single) : Single :=
  if left.isNaN then right else if left < right then right else left

/-- The smaller of two numbers; something that is not a number is ignored. -/
def smaller (left right : Single) : Single :=
  if left.isNaN then right else if right < left then right else left

def infinity : Single := { bits := 0x7f800000 }

def decimal (digits : Int) (places : Nat) : Single :=
  let magnitude := ofNumber (Float32.ofScientific digits.natAbs true places)
  if digits < 0 then magnitude.neg else magnitude

end Single

instance : Scalar Single where
  zero := { bits := 0 }
  add := Single.lift₂ (· + ·)
  sub := Single.lift₂ (· - ·)
  mul := Single.lift₂ (· * ·)
  div := Single.lift₂ (· / ·)
  neg := Single.neg
  beq left right := left.number == right.number
  decidableLE := inferInstance
  decidableLT := inferInstance
  decimal := Single.decimal
  abs := Single.abs
  round := Single.lift Float32.round
  trunc := Single.trunc
  larger := Single.larger
  smaller := Single.smaller
  largest values := values.foldl Single.larger Single.infinity.neg
  least values := values.foldl Single.smaller Single.infinity
  isFinite single := single.number.isFinite
  identical left right := left.bits == right.bits

end QuantGraph
