import QuantGraph.Proofs.NDArray.Reading

/-! Arrays computed from others element by element. Whatever the order in which operations with
broadcasting are applied, the result has the least shape to which all operands stretch, so two ways
to compute from the same operands agree when they agree at every position. -/

namespace QuantGraph

namespace NDArray

variable [Scalar α] {op : BinaryOp} {operands others : List (NDArray α)}
  {element element' : Index → α} {left right result : NDArray α} {target : Shape}

/-- The shape of an array is the least one to which all operands stretch. What is read from it at a
position depends on that position alone. -/
structure Spans (operands : List (NDArray α)) (element : Index → α) (result : NDArray α) :
    Prop where
  stretches : ∀ operand ∈ operands, operand.shape.StretchesTo result.shape
  least : ∀ target : Shape, (∀ operand ∈ operands, operand.shape.StretchesTo target) →
    result.shape.StretchesTo target
  read_eq : ∀ (target : Shape) index, result.shape.StretchesTo target → target.Holds index →
    result.read index = element index

namespace Spans

theorem single (array : NDArray α) : Spans [array] array.read array where
  stretches := by
    intro operand member
    rw [List.mem_singleton.mp member]
    exact Shape.stretchesTo_refl _
  least _ stretch := stretch array (List.mem_singleton_self _)
  read_eq _ _ _ _ := rfl

theorem map (array : NDArray α) (transform : α → α) :
    Spans [array] (fun index => transform (array.read index)) (array.map transform) where
  stretches := (single array).stretches
  least := (single array).least
  read_eq _ _ stretches holds := read_map stretches holds

theorem combine (spans : Spans operands element left) (spans' : Spans others element' right)
    (combined : NDArray.combine op left right = .ok result) :
    Spans (operands ++ others) (fun index => op.apply (element index) (element' index)) result := by
  obtain ⟨common, _, _⟩ := combine_eq_ok.mp combined
  obtain ⟨fromLeft, fromRight, least⟩ := Shape.broadcast_eq_some_iff.mp common
  refine ⟨fun operand member => ?_, fun target stretch => ?_, fun target index stretches holds => ?_⟩
  · rcases List.mem_append.mp member with member | member
    · exact (spans.stretches operand member).trans fromLeft
    · exact (spans'.stretches operand member).trans fromRight
  · exact least target
      (spans.least target fun operand member => stretch operand (List.mem_append_left _ member))
      (spans'.least target fun operand member => stretch operand (List.mem_append_right _ member))
  · rw [read_combine combined stretches holds, spans.read_eq target index (fromLeft.trans stretches)
      holds, spans'.read_eq target index (fromRight.trans stretches) holds]

theorem stretch_three {first second third : NDArray α}
    (spans : Spans [first, second, third] element result) :
    first.shape.StretchesTo result.shape ∧ second.shape.StretchesTo result.shape ∧
      third.shape.StretchesTo result.shape := by
  simpa only [List.forall_mem_cons, List.not_mem_nil, false_imp_iff, implies_true, and_true] using
    spans.stretches

/-- Two arrays can be combined when their operands stretch to a shape that can be addressed. -/
theorem exists_combine (op : BinaryOp) (spans : Spans operands element left)
    (spans' : Spans others element' right) (addressable : target.IsAddressable)
    (stretch : ∀ operand ∈ operands ++ others, operand.shape.StretchesTo target) :
    ∃ result, NDArray.combine op left right = .ok result ∧
      Spans (operands ++ others) (fun index => op.apply (element index) (element' index)) result := by
  obtain ⟨result, combined, _⟩ := exists_read_combine op
    (spans.least target fun operand member => stretch operand (List.mem_append_left _ member))
    (spans'.least target fun operand member => stretch operand (List.mem_append_right _ member))
    addressable
  exact ⟨result, combined, spans.combine spans' combined⟩

/-- What is computed from the same operands with the same elements is the same. -/
theorem eq (spans : Spans operands element left) (spans' : Spans others element' right)
    (same : ∀ operand, operand ∈ operands ↔ operand ∈ others)
    (each : ∀ index, left.shape.Holds index → element index = element' index) : left = right := by
  have shape_eq : left.shape = right.shape := by
    refine Shape.StretchesTo.antisymm ?_ ?_
    · exact spans.least _ fun operand member => spans'.stretches operand ((same operand).mp member)
    · exact spans'.least _ fun operand member => spans.stretches operand ((same operand).mpr member)
  refine ext_get shape_eq fun index holds => ?_
  have holds' : right.shape.Holds index := shape_eq ▸ holds
  rw [← read_eq_get holds, ← read_eq_get holds',
    spans.read_eq _ index (Shape.stretchesTo_refl _) holds,
    spans'.read_eq _ index (Shape.stretchesTo_refl _) holds', each index holds]

end Spans

end NDArray

end QuantGraph
