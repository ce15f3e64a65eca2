import QuantGraph.Proofs.Evaluation.Operation

/-! Values and the shapes of the inputs. Whether an operation has a value, and the shape of the
value, depends on the shapes of the inputs alone. -/

namespace QuantGraph

namespace Op

variable {inputs others : List (NDArray α)}

/-- Reading an input goes on alike when what follows depends on shapes alone. -/
theorem map_shape_read {position : Nat} {missing : OperationFault}
    {next next' : NDArray α → Except OperationFault (NDArray α)}
    (alike : inputs.map NDArray.shape = others.map NDArray.shape)
    (each : ∀ left right : NDArray α, left.shape = right.shape →
      (next left).map NDArray.shape = (next' right).map NDArray.shape) :
    ((match inputs[position]? with
      | some input => Except.ok input
      | none => .error missing) >>= next).map NDArray.shape =
    ((match others[position]? with
      | some input => Except.ok input
      | none => .error missing) >>= next').map NDArray.shape := by
  have read : inputs[position]?.map NDArray.shape = others[position]?.map NDArray.shape := by
    rw [← List.getElem?_map, ← List.getElem?_map, alike]
  cases isLeft : inputs[position]? with
  | none =>
      rw [isLeft, Option.map_none, eq_comm, Option.map_eq_none_iff] at read
      rw [read]
      rfl
  | some left =>
      rw [isLeft, Option.map_some, eq_comm, Option.map_eq_some_iff] at read
      obtain ⟨right, isRight, same⟩ := read
      rw [isRight]
      exact each left right same.symm

theorem map_mapError {error : ArrayFault → OperationFault}
    (outcome : Except ArrayFault (NDArray α)) :
    (outcome.mapError error).map NDArray.shape = (outcome.map NDArray.shape).mapError error := by
  cases outcome <;> rfl

/-- What may be missing has a value in the same cases and of the same shape. -/
theorem map_shape_match {left right : Option (NDArray α)} (fault : OperationFault)
    (alike : left.map NDArray.shape = right.map NDArray.shape) :
    (match left with
      | some value => Except.ok value
      | none => .error fault).map NDArray.shape =
    (match right with
      | some value => Except.ok value
      | none => .error fault).map NDArray.shape := by
  cases left with
  | none =>
      rw [Option.map_none, eq_comm, Option.map_eq_none_iff] at alike
      rw [alike]
  | some value =>
      rw [Option.map_some, eq_comm, Option.map_eq_some_iff] at alike
      obtain ⟨other, rfl, same⟩ := alike
      exact congrArg Except.ok same.symm

theorem map_shape_reshape (data : NDArray α) (shape : Shape) :
    (data.reshape? shape).map NDArray.shape =
      if data.shape.size = shape.size then if shape.IsAddressable then some shape else none
      else none := by
  unfold NDArray.reshape?
  split
  · split <;> rfl
  · rfl

theorem shape_foldl_insertAxis_congr {axes : List Nat} {left right : NDArray α}
    (alike : left.shape = right.shape) :
    (axes.foldl NDArray.insertAxis left).shape = (axes.foldl NDArray.insertAxis right).shape := by
  induction axes generalizing left right with
  | nil => exact alike
  | cons axis rest induction =>
      refine induction ?_
      rw [NDArray.shape_insertAxis, NDArray.shape_insertAxis, alike]

theorem commonShape_congr {limits limits' : LimitArrays α} {data : Shape}
    (alike : limits.toList.map NDArray.shape = limits'.toList.map NDArray.shape) :
    limits.commonShape data = limits'.commonShape data := by
  unfold LimitArrays.commonShape
  generalize limits.toList = arrays, limits'.toList = arrays' at alike
  induction arrays generalizing arrays' data with
  | nil => rw [List.map_eq_nil_iff.mp alike.symm]
  | cons limit rest induction =>
      obtain ⟨limit', rest', rfl, same, restAlike⟩ := List.map_eq_cons_iff.mp alike.symm
      rw [List.foldlM_cons, List.foldlM_cons, same]
      refine congrArg _ (funext fun shape => ?_)
      exact induction _ restAlike.symm

variable [Scalar α] {op : Op α} {feed : Option (NDArray α)} {integral integral' : Bool}

theorem map_shape_combine (binary : BinaryOp) {left right left' right' : NDArray α}
    (leftAlike : left.shape = left'.shape) (rightAlike : right.shape = right'.shape) :
    ((NDArray.combine binary left right).mapError OperationFault.broadcast).map NDArray.shape =
      ((NDArray.combine binary left' right').mapError OperationFault.broadcast).map
        NDArray.shape := by
  unfold NDArray.combine NDArray.zipWith?
  rw [leftAlike, rightAlike]
  cases left'.shape.broadcast right'.shape with
  | none => rfl
  | some shape =>
      dsimp only [Option.map_some]
      by_cases addressable : shape.IsAddressable
      · rw [NDArray.shape_ofFn, NDArray.shape_ofFn, if_pos addressable, if_pos addressable]
        rfl
      · rw [NDArray.shape_ofFn, NDArray.shape_ofFn, if_neg addressable, if_neg addressable]

theorem map_shape_matMul {left right left' right' : NDArray α}
    (leftAlike : left.shape = left'.shape) (rightAlike : right.shape = right'.shape) :
    (left.matMul? right).map NDArray.shape = (left'.matMul? right').map NDArray.shape := by
  unfold NDArray.matMul?
  rw [leftAlike, rightAlike]
  split
  · split <;> rfl
  · rfl

theorem map_shape_pool {kernel : Kernel} {reduce : List α → α} {left right : NDArray α}
    (alike : left.shape = right.shape) :
    (left.pool? kernel.height kernel.width reduce).map NDArray.shape =
      (right.pool? kernel.height kernel.width reduce).map NDArray.shape := by
  unfold NDArray.pool?
  rw [alike]
  split <;> rfl

theorem map_shape_concatenate {axis : Nat}
    (alike : inputs.map NDArray.shape = others.map NDArray.shape) :
    (NDArray.concatenate axis inputs).map NDArray.shape =
      (NDArray.concatenate axis others).map NDArray.shape := by
  match inputs, others, alike with
  | [], [], _ => rfl
  | first :: rest, first' :: rest', alike =>
      have first_eq : first.shape = first'.shape := (List.cons.inj alike).1
      have extents : ((first :: rest).map fun array => array.extent axis) =
          (first' :: rest').map fun array => array.extent axis := by
        have mapped := congrArg (List.map fun shape : Shape => shape.getD axis 0) alike
        rwa [List.map_map, List.map_map] at mapped
      have agree : ((first :: rest).all fun array =>
            array.shape.length == first'.shape.length &&
              array.shape.eraseIdx axis == first'.shape.eraseIdx axis) =
          (first' :: rest').all fun array =>
            array.shape.length == first'.shape.length &&
              array.shape.eraseIdx axis == first'.shape.eraseIdx axis := by
        let fits (shape : Shape) : Bool := shape.length == first'.shape.length &&
          shape.eraseIdx axis == first'.shape.eraseIdx axis
        have mapped : ((first :: rest).map NDArray.shape).all fits =
          ((first' :: rest').map NDArray.shape).all fits := congrArg (List.all · fits) alike
        rwa [List.all_map, List.all_map] at mapped
      unfold NDArray.concatenate
      dsimp only
      rw [first_eq, extents, agree]
      split
      case isTrue => rfl
      case isFalse =>
        split
        case isFalse => rfl
        case isTrue =>
          split <;> rfl

/-- The shape of a value depends on the shapes of the inputs, and on nothing else but the value
that is fed. -/
theorem map_shape_evaluate (alike : inputs.map NDArray.shape = others.map NDArray.shape) :
    (op.evaluate integral inputs feed).map NDArray.shape =
      (op.evaluate integral' others feed).map NDArray.shape := by
  cases op with
  | parameter | constant | convolution | groupConvolution | interpolate => rfl
  | result =>
      refine map_shape_match _ ?_
      rw [← List.getElem?_map, ← List.getElem?_map, alike]
  | convert | relu => exact map_shape_read alike fun left right same => congrArg Except.ok same
  | add | subtract | multiply | divide =>
      exact map_shape_read alike fun left left' leftAlike =>
        map_shape_read alike fun right right' rightAlike =>
          map_shape_combine _ leftAlike rightAlike
  | fakeQuantize levels =>
      refine map_shape_read alike fun data data' dataAlike => ?_
      refine map_shape_read alike fun inputLow inputLow' inputLowAlike => ?_
      refine map_shape_read alike fun inputHigh inputHigh' inputHighAlike => ?_
      refine map_shape_read alike fun outputLow outputLow' outputLowAlike => ?_
      refine map_shape_read alike fun outputHigh outputHigh' outputHighAlike => ?_
      have common : LimitArrays.commonShape ⟨inputLow, inputHigh, outputLow, outputHigh⟩
            data.shape =
          LimitArrays.commonShape ⟨inputLow', inputHigh', outputLow', outputHigh'⟩ data'.shape := by
        rw [dataAlike]
        refine commonShape_congr ?_
        simp [LimitArrays.toList, inputLowAlike, inputHighAlike, outputLowAlike, outputHighAlike]
      by_cases few : levels < 2
      · rw [if_pos few, if_pos few]
        rfl
      · rw [if_neg few, if_neg few]
        simp only [pure, Except.pure]
        rw [common, dataAlike]
        split
        case h_1 shape _ =>
          split <;> rfl
        case h_2 => rfl
  | concat axis =>
      have joined : (NDArray.concatenate axis inputs).map NDArray.shape =
        (NDArray.concatenate axis others).map NDArray.shape := map_shape_concatenate alike
      unfold evaluate
      dsimp only
      rw [map_mapError, map_mapError, joined]
  | matMul =>
      refine map_shape_read alike fun left left' leftAlike => ?_
      dsimp only
      rw [leftAlike]
      by_cases rank : left'.shape.length ≠ 2
      · rw [if_pos rank, if_pos rank]
        rfl
      · rw [if_neg rank, if_neg rank]
        refine map_shape_read alike fun right right' rightAlike => ?_
        exact map_shape_match _ (map_shape_matMul leftAlike rightAlike)
  | maxPool kernel | avgPool kernel =>
      refine map_shape_read alike fun data data' dataAlike => ?_
      rw [dataAlike]
      exact map_shape_match _ (map_shape_pool dataAlike)
  | reshape shape =>
      refine map_shape_read alike fun data data' dataAlike => ?_
      refine map_shape_match _ ?_
      rw [map_shape_reshape, map_shape_reshape, dataAlike]
  | squeeze axes =>
      refine map_shape_read alike fun data data' dataAlike => ?_
      exact congrArg Except.ok (by rw [NDArray.shape_foldr_dropAxis, NDArray.shape_foldr_dropAxis, dataAlike])
  | unsqueeze axes =>
      refine map_shape_read alike fun data data' dataAlike => ?_
      exact congrArg Except.ok (shape_foldl_insertAxis_congr dataAlike)
  | transpose order =>
      exact map_shape_read alike fun left right same =>
        congrArg (fun shape : Shape => Except.ok (shape.permute order)) same

theorem exists_evaluate_of_shapes {value : NDArray α}
    (alike : inputs.map NDArray.shape = others.map NDArray.shape)
    (evaluated : op.evaluate integral inputs feed = .ok value) :
    ∃ other, op.evaluate integral' others feed = .ok other ∧ other.shape = value.shape := by
  have shapes := @map_shape_evaluate α _ _ _ op feed integral integral' alike
  rw [evaluated] at shapes
  exact Outcome.map_eq_ok.mp shapes.symm

/-- Only a fake quantization asks for the output type. -/
theorem evaluate_integral_congr (different : op.kind ≠ .fakeQuantize) :
    op.evaluate integral inputs feed = op.evaluate integral' inputs feed := by
  cases op <;> first | rfl | exact absurd rfl different

end Op

end QuantGraph
