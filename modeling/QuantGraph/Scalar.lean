namespace QuantGraph

/-! The arithmetic of the library. A network is computed in single precision
and argued about in exact arithmetic, so every definition that touches a value
is stated once, over any type with the operations below, and each operation is
applied exactly in the order in which the definition writes it. -/

/-- The operations on values: field operations, an order, an equality test that
need not be reflexive, and the roundings that quantization uses. -/
class Scalar (α : Type) extends Zero α, Add α, Sub α, Mul α, Div α, Neg α,
    LE α, LT α, BEq α where
  decidableLE : DecidableLE α
  decidableLT : DecidableLT α
  /-- The value nearest to `digits / 10 ^ places`. -/
  decimal (digits : Int) (places : Nat) : α
  abs : α → α
  /-- The nearest integer, a half going away from zero. -/
  round : α → α
  /-- The integer part. -/
  trunc : α → α
  larger : α → α → α
  smaller : α → α → α
  /-- The largest number of a list. -/
  largest : List α → α
  /-- The smallest number of a list. -/
  least : List α → α
  isFinite : α → Bool
  /-- Both sides are the same value in representation, which is finer than `==`
  where one number has several representations. -/
  identical : α → α → Bool

namespace Scalar

instance decidableLEInstance [Scalar α] : DecidableLE α := Scalar.decidableLE
instance decidableLTInstance [Scalar α] : DecidableLT α := Scalar.decidableLT
instance inhabitedInstance [Scalar α] : Inhabited α := ⟨0⟩

variable {α : Type} [Scalar α]

/-- The value nearest to an integer. -/
def ofInt (number : Int) : α := decimal number 0

/-- The value nearest to a natural number. -/
def ofNat (number : Nat) : α := ofInt number

/-- Keep a value between two bounds. A value that compares with neither bound
is returned as it is. -/
def clamp (value low high : α) : α :=
  if value < low then low else if high < value then high else value

/-- Whether two values are equal as numbers; the negation of `==`. -/
def differs (left right : α) : Bool := !(left == right)

/-- The sum of a list from left to right, starting from negative zero, which
leaves every first summand as it is. -/
def sum (values : List α) : α := values.foldl (· + ·) (-0)

/-- The sum of the products of corresponding elements, in their order. -/
def dot (left right : List α) : α :=
  (left.zip right).foldl (fun total pair => total + pair.1 * pair.2) 0

end Scalar

end QuantGraph
