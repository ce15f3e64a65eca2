namespace QuantGraph

/-! Shapes, positions inside an array of a shape, and broadcasting. A shape
lists the extents of the axes, outermost first; elements are numbered in
row-major order, the last axis running fastest. -/

abbrev Shape := List Nat

/-- A position inside an array: one coordinate for each axis. -/
abbrev Index := List Nat

/-- Numbers in brackets, separated by a comma and a blank. -/
def bracketed (numbers : List Nat) : String :=
  "[" ++ ", ".intercalate (numbers.map toString) ++ "]"

example : bracketed [1, 20] = "[1, 20]" ∧ bracketed [] = "[]" := by decide +kernel

namespace Shape

/-- The number of elements. -/
def size : Shape → Nat
  | [] => 1
  | extent :: rest => extent * size rest

/-- The largest number of elements that can be addressed, `2 ^ 63 - 1`. -/
def maxAddressable : Nat := 9223372036854775807

/-- An array of the shape can be addressed. Axes without an extent do not make up
for others that are too large. -/
def IsAddressable (shape : Shape) : Prop := size (shape.filter (· ≠ 0)) ≤ maxAddressable

instance (shape : Shape) : Decidable shape.IsAddressable := inferInstanceAs (Decidable (_ ≤ _))

example : IsAddressable [2 ^ 31, 2 ^ 31] ∧ ¬ IsAddressable [2 ^ 32, 0, 2 ^ 32] := by decide

/-- The row-major number of a position. -/
def offset : Shape → Index → Nat
  | _ :: rest, coordinate :: index => coordinate * size rest + offset rest index
  | _, _ => 0

/-- The position with a given row-major number. -/
def indexAt : Shape → Nat → Index
  | [], _ => []
  | _ :: rest, number => number / size rest :: indexAt rest (number % size rest)

example : offset [2, 3, 4] [1, 2, 3] = 23 ∧ indexAt [2, 3, 4] 23 = [1, 2, 3] := by decide

/-- The extent that two extents have in common after broadcasting. -/
def broadcastExtent (left right : Nat) : Option Nat :=
  if left = right then some left
  else if left = 1 then some right
  else if right = 1 then some left
  else none

/-- Broadcasting of shapes whose last axis comes first. Axes that one side
lacks count as extent one. -/
def broadcastReversed : List Nat → List Nat → Option (List Nat)
  | [], right => some right
  | left, [] => some left
  | left :: lefts, right :: rights => do
      let extent ← broadcastExtent left right
      let rest ← broadcastReversed lefts rights
      return extent :: rest

/-- The common shape of two arrays in an elementwise operation: axes are
matched from the last one, and an extent of one stretches. -/
def broadcast (left right : Shape) : Option Shape :=
  (broadcastReversed left.reverse right.reverse).map List.reverse

example : broadcast [1, 3, 1, 1] [] = some [1, 3, 1, 1] := by decide
example : broadcast [2, 3] [3] = some [2, 3] := by decide
example : broadcast [1, 3, 4, 4] [1, 3, 1, 1] = some [1, 3, 4, 4] := by decide
example : broadcast [2, 3] [4] = none := by decide

/-- An array of shape `source` stretches to `target` without widening it. -/
def StretchesTo (source target : Shape) : Prop := broadcast source target = some target

instance (source target : Shape) : Decidable (StretchesTo source target) :=
  inferInstanceAs (Decidable (_ = _))

/-- The position read in an array of shape `source` when it is stretched to a
shape of which `index` is a position. -/
def stretchedIndex (source : Shape) (index : Index) : Index :=
  source.zipWith (fun extent coordinate => if extent = 1 then 0 else coordinate)
    (index.drop (index.length - source.length))

example : stretchedIndex [3, 1] [5, 2, 7] = [2, 0] := by decide

end Shape

end QuantGraph
