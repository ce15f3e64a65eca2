import Mathlib
import QuantGraph.Proofs.NDArray.Dequantization

/-! Reductions of dequantized arrays. The largest element, the mean and the inner product keep
pace with a scale, and the first two with a shift, so that they can be taken before the constants
are applied as well as after. -/

namespace QuantGraph

namespace Shape

variable {shape constant : Shape} {index : Index}

/-- The two trailing axes, as far as there are any, have extent one. -/
def IsPerChannel (shape : Shape) : Prop := ∀ extent ∈ shape.reverse.take 2, extent = 1

instance (shape : Shape) : Decidable shape.IsPerChannel :=
  inferInstanceAs (Decidable (∀ extent ∈ shape.reverse.take 2, extent = 1))

theorem broadcastReversed_of_ones {ones : List Nat} (each : ∀ extent ∈ ones.take 2, extent = 1)
    (columns rows : Nat) (outer : List Nat) :
    broadcastReversed (columns :: rows :: outer) ones =
      (broadcastReversed outer (ones.drop 2)).map fun shape => columns :: rows :: shape := by
  have extent_one (extent : Nat) : broadcastExtent extent 1 = some extent := by
    unfold broadcastExtent
    split_ifs <;> simp_all
  match ones with
  | [] =>
      cases outer <;> rfl
  | [column] =>
      obtain rfl : column = 1 := each column (by simp)
      cases outer <;> simp [broadcastReversed, extent_one]
  | column :: row :: rest =>
      obtain rfl : column = 1 := each column (by simp)
      obtain rfl : row = 1 := each row (by simp)
      simp only [broadcastReversed, extent_one, List.drop_succ_cons, List.drop_zero]
      cases broadcastReversed outer rest <;> rfl

/-- A constant with a number for each channel leaves the two trailing axes as they are. -/
theorem broadcast_perChannel {batches channels rows columns : Nat}
    (perChannel : constant.IsPerChannel) (rank : shape.length = 4)
    (common : broadcast [batches, channels, rows, columns] constant = some shape) :
    ∃ batches' channels', shape = [batches', channels', rows, columns] ∧
      ∀ rows columns, broadcast [batches, channels, rows, columns] constant =
        some [batches', channels', rows, columns] := by
  have each (rows columns : Nat) : broadcast [batches, channels, rows, columns] constant =
      (broadcastReversed [channels, batches] (constant.reverse.drop 2)).map fun outer =>
        outer.reverse ++ [rows, columns] := by
    change (broadcastReversed (columns :: rows :: [channels, batches]) constant.reverse).map _ = _
    rw [broadcastReversed_of_ones perChannel, Option.map_map]
    exact congrArg (fun change => Option.map change _) (funext fun outer => by simp)
  rw [each] at common
  obtain ⟨outer, isOuter, rfl⟩ := Option.map_eq_some_iff.mp common
  obtain ⟨channels', batches', rfl⟩ := List.length_eq_two.mp (by simpa using rank)
  exact ⟨batches', channels', rfl, fun rows columns => by rw [each, isOuter]; rfl⟩

/-- A constant with a number for each channel is read at the same place wherever in a channel. -/
theorem stretchedIndex_perChannel (perChannel : constant.IsPerChannel) (rank : constant.length ≤ 4)
    (batch channel row column row' column' : Nat) :
    constant.stretchedIndex [batch, channel, row, column] =
      constant.stretchedIndex [batch, channel, row', column'] := by
  match constant with
  | [] => rfl
  | [last] | [rows, last] | [channels, rows, last] | [batches, channels, rows, last] =>
      simp only [IsPerChannel, List.reverse_cons, List.reverse_nil, List.nil_append,
        List.cons_append, List.take_succ_cons, List.take_zero, List.take_nil, List.mem_cons,
        List.not_mem_nil, or_false, forall_eq_or_imp, forall_eq] at perChannel
      simp [stretchedIndex, perChannel]
  | _ :: _ :: _ :: _ :: _ :: _ =>
      simp only [List.length_cons] at rank
      omega

end Shape

namespace NDArray

/-! ## Windows -/

section Pooling

variable {height width : Nat} {reduce : List Rat → Rat} {binary : BinaryOp}
  {data constant combined pooled : NDArray Rat}

/-- The positions in a window on a stretched array come from the positions in the window on the
array. -/
theorem map_get_windowIndices {batches channels rows columns batch channel row column : Nat}
    (shape_eq : data.shape = [batches, channels, rows, columns])
    (inside : row < rows / height ∧ column < columns / width) :
    (windowIndices height width
        (Shape.stretchedIndex [batches, channels, rows / height, columns / width]
          [batch, channel, row, column])).map data.get =
      (windowIndices height width [batch, channel, row, column]).map data.read := by
  have start {extent coordinate : Nat} (below : coordinate < extent) :
      (if extent = 1 then 0 else coordinate) = coordinate := by
    split <;> omega
  have holds : Shape.Holds [batch + 1, channel + 1, rows / height, columns / width]
      [batch, channel, row, column] :=
    .cons (Nat.lt_succ_self _) (.cons (Nat.lt_succ_self _) (.cons inside.1 (.cons inside.2 .nil)))
  have within := (holds_of_mem_windowIndices holds).2
  have moved : windowIndices height width
      (Shape.stretchedIndex [batches, channels, rows / height, columns / width]
        [batch, channel, row, column]) =
      (windowIndices height width [batch, channel, row, column]).map
        data.shape.stretchedIndex := by
    rw [shape_eq]
    unfold windowIndices
    rw [List.map_flatMap]
    refine List.flatMap_congr fun below isBelow => ?_
    rw [List.map_map]
    refine List.map_congr_left fun beside isBeside => ?_
    have member : [batch, channel, row * height + below, column * width + beside] ∈
        windowIndices height width [batch, channel, row, column] :=
      List.mem_flatMap.mpr ⟨below, isBelow, List.mem_map.mpr ⟨beside, isBeside, rfl⟩⟩
    obtain _ | ⟨_, _ | ⟨_, _ | ⟨isRow, _ | ⟨isColumn, _⟩⟩⟩⟩ := within _ member
    simp [Shape.stretchedIndex, start inside.1, start inside.2, start isRow, start isColumn]
  rw [moved, List.map_map]
  rfl

/-- Combined with a number, the elements of a list reduce to what they reduce to, combined with that
number. -/
def KeepsPace (reduce : List Rat → Rat) (binary : BinaryOp) (number : Rat) : Prop :=
  ∀ values : List Rat, values ≠ [] →
    reduce (values.map fun value => binary.apply value number) = binary.apply (reduce values) number

/-- In a window, all elements are combined with the number for its channel. -/
theorem map_get_combined {batches channels rows columns : Nat} {index : Index}
    (perChannel : constant.shape.IsPerChannel)
    (shape_eq : combined.shape = [batches, channels, rows, columns])
    (isCombined : combine binary data constant = .ok combined)
    (holds : Shape.Holds [batches, channels, rows / height, columns / width] index) :
    (windowIndices height width index).map combined.get =
      ((windowIndices height width index).map data.read).map fun value =>
        binary.apply value (constant.read index) := by
  have within := (holds_of_mem_windowIndices holds).2
  have constantStretches := (stretchesTo_of_combine isCombined).2
  rw [shape_eq] at constantStretches
  rw [List.map_map]
  refine List.map_congr_left fun other member => ?_
  have inside : combined.shape.Holds other := shape_eq ▸ within other member
  refine ((combine_eq_ok.mp isCombined).2.2 other inside).trans ?_
  refine congrArg (binary.apply _) (congrArg constant.get ?_)
  obtain _ | ⟨_, _ | ⟨_, _ | ⟨_, _ | ⟨_, _ | _⟩⟩⟩⟩ := id holds
  obtain ⟨below, _, member⟩ := List.mem_flatMap.mp member
  obtain ⟨beside, _, rfl⟩ := List.mem_map.mp member
  exact Shape.stretchedIndex_perChannel perChannel constantStretches.length_le _ _ _ _ _ _

/-- A window is reduced before the elements are combined with the number for their channel as well
as after. -/
theorem exists_pool_of_combine (perChannel : constant.shape.IsPerChannel)
    (rank : data.shape.length = 4)
    (commutes : ∀ number ∈ constant.toList, KeepsPace reduce binary number)
    (isCombined : combine binary data constant = .ok combined)
    (isPooled : combined.pool? height width reduce = some pooled)
    (addressable : pooled.shape.IsAddressable) :
    ∃ moved, data.pool? height width reduce = some moved ∧
      combine binary moved constant = .ok pooled := by
  obtain ⟨batches, channels, rows, columns, shape_eq⟩ := List.length_eq_four.mp rank
  obtain ⟨batches', channels', _, _, combined_eq, rfl⟩ := pool?_eq_some isPooled
  have common := (combine_eq_ok.mp isCombined).1
  rw [shape_eq] at common
  obtain ⟨_, _, combined_eq', common⟩ :=
    Shape.broadcast_perChannel perChannel (by rw [combined_eq]; rfl) common
  cases combined_eq.symm.trans combined_eq'
  let moved := ofFn [batches, channels, rows / height, columns / width] fun index =>
    reduce (data.window height width index)
  refine ⟨moved, by rw [pool?, shape_eq], ?_⟩
  refine combine_eq_ok.mpr ⟨common _ _, addressable, fun index inside => ?_⟩
  have holds : Shape.Holds [batches', channels', rows / height, columns / width] index := inside
  obtain ⟨movedStretches, constantStretches, _⟩ :=
    Shape.broadcast_eq_some_iff.mp (common (rows / height) (columns / width))
  have nonempty := (holds_of_mem_windowIndices holds).1
  have read_moved : moved.read index =
      reduce ((windowIndices height width index).map data.read) := by
    have moved_inside := holds.stretchedIndex movedStretches
    obtain _ | ⟨_, _ | ⟨_, _ | ⟨isRow, _ | ⟨isColumn, _ | _⟩⟩⟩⟩ := id holds
    rw [← map_get_windowIndices shape_eq ⟨isRow, isColumn⟩, ← window_eq_map]
    exact get_ofFn moved_inside
  calc (ofFn [batches', channels', rows / height, columns / width] fun index =>
        reduce (combined.window height width index)).get index
      = reduce (combined.window height width index) := get_ofFn holds
    _ = reduce (((windowIndices height width index).map data.read).map fun value =>
          binary.apply value (constant.read index)) := by
        rw [window_eq_map, map_get_combined perChannel combined_eq isCombined holds]
    _ = binary.apply (reduce ((windowIndices height width index).map data.read))
          (constant.read index) :=
        commutes _ (read_mem_toList constantStretches holds) _ (by simpa using nonempty)
    _ = binary.apply (moved.read index) (constant.read index) := by rw [read_moved]

/-- An array is pooled before it is dequantized as well as after. -/
theorem exists_pool_of_dequantize {shift : Option (NDArray Rat)} {scale : NDArray Rat}
    (shiftPerChannel : ∀ constant ∈ shift, constant.shape.IsPerChannel)
    (scalePerChannel : scale.shape.IsPerChannel) (rank : data.shape.length = 4)
    (shifts : ∀ constant ∈ shift, ∀ number ∈ constant.toList, KeepsPace reduce .subtract number)
    (scales : ∀ number ∈ scale.toList, KeepsPace reduce .multiply number)
    (isDequantized : data.dequantize shift scale = .ok combined)
    (isPooled : combined.pool? height width reduce = some pooled)
    (addressable : pooled.shape.IsAddressable) :
    ∃ moved, data.pool? height width reduce = some moved ∧
      moved.dequantize shift scale = .ok pooled := by
  obtain ⟨shifted, isShifted, isScaled⟩ := dequantize_eq_ok.mp isDequantized
  have shifted_rank : shifted.shape.length = 4 := by
    have least := (stretchesTo_of_lessShift isShifted).length_le
    have most := (stretchesTo_of_combine isScaled).1.length_le
    obtain ⟨_, _, _, _, combined_eq, _⟩ := pool?_eq_some isPooled
    rw [combined_eq] at most
    exact le_antisymm most (rank ▸ least)
  obtain ⟨pooledShifted, isPooledShifted, isPooledScaled⟩ :=
    exists_pool_of_combine scalePerChannel shifted_rank scales isScaled isPooled addressable
  cases shift with
  | none =>
      cases isShifted
      exact ⟨pooledShifted, isPooledShifted, dequantize_eq_ok.mpr ⟨_, rfl, isPooledScaled⟩⟩
  | some shift =>
      obtain ⟨moved, isMoved, isMovedShifted⟩ := exists_pool_of_combine (shiftPerChannel shift rfl)
        rank (shifts shift rfl) isShifted isPooledShifted
        ((stretchesTo_of_combine isPooledScaled).1.isAddressable addressable)
      exact ⟨moved, isMoved, dequantize_eq_ok.mpr ⟨_, isMovedShifted, isPooledScaled⟩⟩

theorem keepsPace_largest {number : Rat}
    (monotone : Monotone fun value => binary.apply value number) :
    KeepsPace Scalar.largest binary number := by
  intro values nonempty
  refine le_antisymm ?_ ?_
  · refine (Exact.largest_le (by simpa using nonempty)).mpr fun value member => ?_
    obtain ⟨earlier, listed, rfl⟩ := List.mem_map.mp member
    exact monotone (Exact.le_largest listed)
  · exact Exact.le_largest (List.mem_map_of_mem (Exact.largest_mem nonempty))

theorem keepsPace_mean_multiply (number : Rat) : KeepsPace mean .multiply number := by
  intro values _
  change mean (values.map fun value => value * number) = mean values * number
  rw [mean_eq, mean_eq, List.length_map, List.sum_map_mul_right, List.map_id', div_mul_eq_mul_div]

theorem sum_map_sub (values : List Rat) (number : Rat) :
    (values.map fun value => value - number).sum = values.sum - values.length * number := by
  induction values with
  | nil => simp
  | cons value values induction =>
      rw [List.map_cons, List.sum_cons, induction, List.sum_cons, List.length_cons]
      push_cast
      ring

theorem keepsPace_mean_subtract (number : Rat) : KeepsPace mean .subtract number := by
  intro values nonempty
  have length_ne : (values.length : Rat) ≠ 0 := by simpa using nonempty
  change mean (values.map fun value => value - number) = mean values - number
  rw [mean_eq, mean_eq, List.length_map, sum_map_sub, sub_div, mul_div_cancel_left₀ _ length_ne]

end Pooling

/-! ## Inner products -/

section Products

variable {left right product : NDArray Rat} {number : Rat}

theorem dot_eq (left right : List Rat) :
    Scalar.dot left right = ((left.zip right).map fun pair => pair.1 * pair.2).sum := by
  rw [Scalar.dot, List.sum_eq_foldl, List.foldl_map]

theorem dot_map_left (left right : List Rat) (number : Rat) :
    Scalar.dot (left.map fun value => value * number) right = Scalar.dot left right * number := by
  rw [dot_eq, dot_eq, List.zip_map_left, List.map_map, ← List.sum_map_mul_right]
  refine congrArg List.sum (List.map_congr_left fun pair _ => ?_)
  exact mul_right_comm _ _ _

theorem dot_map_right (left right : List Rat) (number : Rat) :
    Scalar.dot left (right.map fun value => value * number) = Scalar.dot left right * number := by
  rw [dot_eq, dot_eq, List.zip_map_right, List.map_map, ← List.sum_map_mul_right]
  refine congrArg List.sum (List.map_congr_left fun pair _ => ?_)
  exact (mul_assoc _ _ _).symm

theorem matMul?_eq_some : left.matMul? right = some product ↔
    ∃ rows inner columns, left.shape = [rows, inner] ∧ right.shape = [inner, columns] ∧
      product = ofFn [rows, columns] fun index =>
        Scalar.dot ((List.range inner).map fun position => left.get [index.getD 0 0, position])
          ((List.range inner).map fun position => right.get [position, index.getD 1 0]) := by
  unfold matMul?
  constructor
  · intro found
    split at found
    case h_1 rows inner inner' columns isLeft isRight =>
      split at found
      case isTrue equal =>
        subst equal
        exact ⟨rows, inner, columns, isLeft, isRight, (Option.some.inj found).symm⟩
      case isFalse => cases found
    case h_2 => cases found
  · rintro ⟨rows, inner, columns, isLeft, isRight, rfl⟩
    rw [isLeft, isRight]
    exact if_pos rfl

/-- A matrix is scaled after it is multiplied as well as before. -/
theorem exists_matMul_of_map_left
    (isProduct : (left.map fun value => value * number).matMul? right = some product) :
    ∃ moved, left.matMul? right = some moved ∧ product = moved.map fun value => value * number := by
  obtain ⟨rows, inner, columns, isLeft, isRight, rfl⟩ := matMul?_eq_some.mp isProduct
  refine ⟨_, matMul?_eq_some.mpr ⟨rows, inner, columns, isLeft, isRight, rfl⟩, ?_⟩
  refine ext_get rfl fun index inside => ?_
  have holds : Shape.Holds [rows, columns] index := inside
  refine (get_ofFn holds).trans (Eq.trans ?_ (get_map holds).symm)
  rw [get_ofFn holds, ← dot_map_left, List.map_map]
  obtain _ | ⟨isRow, _ | ⟨isColumn, _ | _⟩⟩ := holds
  refine congrArg (fun values => Scalar.dot values _)
    (List.map_congr_left fun position member => ?_)
  refine get_map ?_
  rw [show left.shape = [rows, inner] from isLeft]
  exact .cons isRow (.cons (List.mem_range.mp member) .nil)

theorem exists_matMul_of_map_right
    (isProduct : left.matMul? (right.map fun value => value * number) = some product) :
    ∃ moved, left.matMul? right = some moved ∧ product = moved.map fun value => value * number := by
  obtain ⟨rows, inner, columns, isLeft, isRight, rfl⟩ := matMul?_eq_some.mp isProduct
  refine ⟨_, matMul?_eq_some.mpr ⟨rows, inner, columns, isLeft, isRight, rfl⟩, ?_⟩
  refine ext_get rfl fun index inside => ?_
  have holds : Shape.Holds [rows, columns] index := inside
  refine (get_ofFn holds).trans (Eq.trans ?_ (get_map holds).symm)
  rw [get_ofFn holds, ← dot_map_right, List.map_map]
  obtain _ | ⟨isRow, _ | ⟨isColumn, _ | _⟩⟩ := holds
  refine congrArg (Scalar.dot _) (List.map_congr_left fun position member => ?_)
  refine get_map ?_
  rw [show right.shape = [inner, columns] from isRight]
  exact .cons (List.mem_range.mp member) (.cons isColumn .nil)

end Products

end NDArray

end QuantGraph
