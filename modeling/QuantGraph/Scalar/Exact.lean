import QuantGraph.Scalar

namespace QuantGraph

/-! Exact arithmetic: the rational numbers, on which no operation rounds. The
statements about what a revision does to values are statements about this
instance. -/

namespace Exact

/-- The nearest integer, a half going away from zero. -/
def round (value : Rat) : Rat :=
  if 0 ≤ value then (value + 1 / 2).floor else (value - 1 / 2).ceil

/-- The integer part. -/
def trunc (value : Rat) : Rat :=
  if 0 ≤ value then value.floor else value.ceil

def larger (left right : Rat) : Rat := if left < right then right else left

def smaller (left right : Rat) : Rat := if right < left then right else left

example : round (5 / 2) = 3 ∧ round (-5 / 2) = -3 ∧ round (7 / 3) = 2 := by decide +kernel
example : trunc (5 / 2) = 2 ∧ trunc (-5 / 2) = -2 := by decide +kernel

end Exact

instance : Scalar Rat where
  zero := 0
  decidableLE := inferInstance
  decidableLT := inferInstance
  decimal digits places := digits / 10 ^ places
  abs value := if 0 ≤ value then value else -value
  round := Exact.round
  trunc := Exact.trunc
  larger := Exact.larger
  smaller := Exact.smaller
  largest values := values.foldl Exact.larger (values.headD 0)
  least values := values.foldl Exact.smaller (values.headD 0)
  isFinite _ := true
  identical left right := left == right

end QuantGraph
