import QuantGraph.Proofs.Quantization.Folding
import QuantGraph.Proofs.Quantization.Projection

/-! Folding looks for limits that amount to a shift before it looks at anything else. What it
does otherwise is to quantize every element with the limits for its leading coordinate; on
data that the shift moves off the levels the two differ. -/

namespace QuantGraph

/-- A limit holds one value, or as many as there are channels. -/
def Tensor.IsPerChannel (limit : Tensor α) (channels : Nat) : Prop :=
  limit.size = 1 ∨ limit.size = channels

instance (limit : Tensor α) (channels : Nat) : Decidable (limit.IsPerChannel channels) :=
  inferInstanceAs (Decidable (_ ∨ _))

/-- There is a leading coordinate on any axes, and it is one of the leading axis. -/
theorem Shape.Holds.headD_lt {shape : Shape} {index : Index} (holds : shape.Holds index)
    (axes : shape ≠ []) : index.headD 0 < shape.headD 0 := by
  cases holds with
  | nil => exact absurd rfl axes
  | cons below => exact below

namespace NDArray

variable [Inhabited α] {array : NDArray α}

theorem forall_mem_toList_iff {property : α → Prop} :
    (∀ value ∈ array.toList, property value) ↔
      ∀ index, array.shape.Holds index → property (array.get index) := by
  constructor
  · intro all index holds
    rw [get_eq_getElem (offset_lt_size_data holds)]
    exact all _ (Array.mem_toList_iff.mpr (Array.getElem_mem _))
  · intro all value member
    obtain ⟨number, below, rfl⟩ := Array.mem_iff_getElem.mp (Array.mem_toList_iff.mp member)
    have inside : number < array.shape.size := array.size_data ▸ below
    have found := all _ (Shape.holds_indexAt inside)
    rw [get_eq_getElem (offset_lt_size_data (Shape.holds_indexAt inside))] at found
    simpa only [Shape.offset_indexAt inside] using found

end NDArray

namespace FoldLimits

/-! ## Folding without the shift -/

section Scaling

variable [Scalar α]

/-- Folding that does not ask whether the limits amount to a shift. -/
def scale (limits : FoldLimits α) (name : String) (data : Tensor α) (levels : Nat)
    (outputType : ElementType) (rounding : Bool) : Except RevisionError (Tensor α) := do
  if levels < 2 then
    throw (.unsupported (.levels name levels))
  if data.shape.length = 0 ∨ maxRank < data.shape.length then
    throw (.unexpectedRank name data.shape.length)
  let channels := data.shape.headD 0
  let inputLow ← limits.values name channels .inputLow
  let inputHigh ← limits.values name channels .inputHigh
  let outputLow ← limits.values name channels .outputLow
  let outputHigh ← limits.values name channels .outputHigh
  let inner := if channels = 0 then 1 else data.size / channels
  let quantized := data.values.mapNumbered fun number value =>
    let channel := number / max inner 1
    let interval : Interval α :=
      { inputLow := valueAt inputLow channel
        inputHigh := valueAt inputHigh channel
        outputLow := valueAt outputLow channel
        outputHigh := valueAt outputHigh channel }
    interval.quantize levels rounding value
  return { elementType := outputType, values := quantized }

/-- The data, moved by the lower output limit. -/
def shift (limits : FoldLimits α) (data : Tensor α) (outputType : ElementType) : Tensor α :=
  (data.map (· + limits.outputLow.first?.getD 0)).withElementType outputType

/-- Every element, quantized with the limits for its leading coordinate. -/
def channelwise (limits : FoldLimits α) (data : NDArray α) (levels : Nat) (rounding : Bool) :
    NDArray α :=
  .ofFn data.shape fun index =>
    (limits.channelInterval (index.headD 0)).quantize levels rounding (data.get index)

variable {limits : FoldLimits α} {data tensor : Tensor α} {levels : Nat} {rounding : Bool}
  {name : String} {type : ElementType}

theorem apply_of_isSignedShift (shifts : limits.isSignedShift levels = true) :
    limits.apply name data levels type rounding = .ok (limits.shift data type) := by
  unfold apply
  rw [if_pos shifts]
  rfl

theorem apply_of_not_isSignedShift (scaled : limits.isSignedShift levels = false) :
    limits.apply name data levels type rounding =
      limits.scale name data levels type rounding := by
  unfold apply
  rw [if_neg (Bool.eq_false_iff.mp scaled)]
  rfl

omit [Scalar α] in
theorem values_eq_ok_iff {channels : Nat} {limit : LimitName} {list : List α} :
    limits.values name channels limit = .ok list ↔
      (limits.get limit).IsPerChannel channels ∧ list = (limits.get limit).toList := by
  unfold values
  dsimp only
  split
  case isTrue other =>
    refine iff_of_false nofun fun both => ?_
    rcases both.1 with one | each
    · exact other.1 one
    · exact other.2 each
  case isFalse counted =>
    refine ⟨fun found => ⟨?_, (Except.ok.inj found).symm⟩, fun both => congrArg Except.ok both.2.symm⟩
    exact (not_and_or.mp counted).imp not_not.mp not_not.mp

/-- Quantizing by number is quantizing by leading coordinate. -/
theorem mapNumbered_eq_channelwise :
    (data.values.mapNumbered fun number value =>
      (limits.channelInterval (number / max (if data.shape.headD 0 = 0 then 1
        else data.size / data.shape.headD 0) 1)).quantize levels rounding value) =
      limits.channelwise data.values levels rounding := by
  refine NDArray.ext_get rfl fun index holds => ?_
  have inside : data.values.shape.Holds index := holds
  rw [NDArray.get_mapNumbered inside, channelwise, NDArray.get_ofFn inside]
  refine congrArg (fun channel => (limits.channelInterval channel).quantize levels rounding
    (data.values.get index)) ?_
  have size_eq : data.size = data.values.shape.size := data.values.size_data
  cases index with
  | nil =>
      have shape_eq : data.values.shape = [] :=
        List.eq_nil_of_length_eq_zero inside.length_eq.symm
      rw [shape_eq]
      exact Nat.zero_div _
  | cons coordinate rest =>
      rw [size_eq]
      exact channel_eq inside

/-- Data of one to five axes is folded when every limit has one element or one for each
position of the leading axis. -/
theorem scale_eq_ok :
    limits.scale name data levels type rounding = .ok tensor ↔
      2 ≤ levels ∧ (data.shape ≠ [] ∧ data.shape.length ≤ maxRank) ∧
        (∀ limit, (limits.get limit).IsPerChannel (data.shape.headD 0)) ∧
        tensor = { elementType := type
                   values := limits.channelwise data.values levels rounding } := by
  constructor
  · intro scaled
    unfold scale at scaled
    dsimp only at scaled
    split at scaled
    case isTrue => cases scaled
    case isFalse enough =>
      split at scaled
      case isTrue => cases scaled
      case isFalse ranked =>
        obtain ⟨inputLow, isInputLow, scaled⟩ := Outcome.bind_eq_ok.mp scaled
        obtain ⟨inputHigh, isInputHigh, scaled⟩ := Outcome.bind_eq_ok.mp scaled
        obtain ⟨outputLow, isOutputLow, scaled⟩ := Outcome.bind_eq_ok.mp scaled
        obtain ⟨outputHigh, isOutputHigh, scaled⟩ := Outcome.bind_eq_ok.mp scaled
        obtain ⟨countedInputLow, rfl⟩ := values_eq_ok_iff.mp isInputLow
        obtain ⟨countedInputHigh, rfl⟩ := values_eq_ok_iff.mp isInputHigh
        obtain ⟨countedOutputLow, rfl⟩ := values_eq_ok_iff.mp isOutputLow
        obtain ⟨countedOutputHigh, rfl⟩ := values_eq_ok_iff.mp isOutputHigh
        obtain ⟨axes, rank⟩ := not_or.mp ranked
        refine ⟨Nat.not_lt.mp enough, ⟨fun empty => axes (by rw [empty]; rfl), Nat.not_lt.mp rank⟩,
          fun limit => ?_, ?_⟩
        · cases limit <;> assumption
        · exact (Except.ok.inj scaled).symm.trans (congrArg (Tensor.mk type) mapNumbered_eq_channelwise)
  · rintro ⟨enough, ⟨axes, rank⟩, counted, rfl⟩
    have ranked : ¬ (data.shape.length = 0 ∨ maxRank < data.shape.length) :=
      not_or.mpr ⟨fun empty => axes (List.eq_nil_of_length_eq_zero empty), Nat.not_lt.mpr rank⟩
    have lists (limit : LimitName) :
        limits.values name (data.shape.headD 0) limit = .ok (limits.get limit).toList :=
      values_eq_ok_iff.mpr ⟨counted limit, rfl⟩
    unfold scale
    simp only [if_neg (Nat.not_lt_of_le enough), if_neg ranked, lists]
    exact congrArg (fun values => Except.ok (Tensor.mk type values)) mapNumbered_eq_channelwise

/-- The shift is as good as scaling where scaling succeeds and moves every element as far. -/
theorem apply_eq_scale_iff (shifts : limits.isSignedShift levels = true) :
    limits.apply name data levels type rounding = limits.scale name data levels type rounding ↔
      2 ≤ levels ∧ (data.shape ≠ [] ∧ data.shape.length ≤ maxRank) ∧
        (∀ limit, (limits.get limit).IsPerChannel (data.shape.headD 0)) ∧
        ∀ index, data.shape.Holds index →
          data.values.get index + limits.outputLow.first?.getD 0 =
            (limits.channelInterval (index.headD 0)).quantize levels rounding
              (data.values.get index) := by
  rw [apply_of_isSignedShift shifts, eq_comm, scale_eq_ok]
  refine and_congr_right fun _ => and_congr_right fun _ => and_congr_right fun _ => ?_
  constructor
  · intro equal index holds
    have inside : data.values.shape.Holds index := holds
    have values := congrArg (fun tensor : Tensor α => tensor.values.get index) equal
    change (data.values.map _).get index = (limits.channelwise data.values levels rounding).get index
      at values
    rwa [NDArray.get_map inside, channelwise, NDArray.get_ofFn inside] at values
  · intro same
    refine congrArg (Tensor.mk type) (NDArray.ext_get rfl fun index holds => ?_)
    have inside : data.values.shape.Holds index := holds
    change (data.values.map _).get index = _
    rw [NDArray.get_map inside, channelwise, NDArray.get_ofFn inside]
    exact same index holds

end Scaling

/-! ## The shift in exact arithmetic -/

section Shift

/-- The limits between which values are shifted by 127. -/
def signedBound : LimitName → Rat
  | .inputLow => 0
  | .inputHigh => 254
  | .outputLow => -127
  | .outputHigh => 127

def signedInterval : Interval Rat where
  inputLow := signedBound .inputLow
  inputHigh := signedBound .inputHigh
  outputLow := signedBound .outputLow
  outputHigh := signedBound .outputHigh

/-- The integers that are shifted to where scaling and rounding moves them, or the levels, which
scaling alone moves so. -/
def IsAligned (rounding : Bool) (value : Rat) : Prop :=
  if rounding then ∃ number ≤ 254, value = (number : Nat)
  else ∃ step ≤ 255, value = (step : Nat) * 254 / 255

/-- The interval of the shift with its output limits shifted back. -/
def unshifted : Interval Rat := ⟨0, 254, 0, 254⟩

theorem isSelfMap_unshifted : unshifted.IsSelfMap := ⟨rfl, rfl⟩

theorem isOrdered_unshifted : unshifted.IsOrdered := by
  unfold unshifted
  exact ⟨by norm_num, by norm_num⟩

theorem level_unshifted (step : Nat) : unshifted.level 256 step = (step : Rat) * 254 / 255 := by
  norm_num [Interval.level, unshifted]

theorem signedInterval_project (value : Rat) :
    signedInterval.project 256 value = unshifted.project 256 value - 127 := by
  have moved := Interval.movesLevels .subtract (by decide : 2 ≤ 256) 0 254 0 254 127 value
  change (Interval.mk (0 : Rat) 254 (0 - 127) (254 - 127)).project 256 value = _ at moved
  rw [← show (Interval.mk (0 : Rat) 254 (0 - 127) (254 - 127)) = signedInterval by
    unfold signedInterval signedBound; norm_num]
  exact moved

/-- The levels are less than one apart, so no integer is moved by a half. -/
theorem abs_project_unshifted_sub_lt {number : Nat} (le : number ≤ 254) :
    |unshifted.project 256 number - number| < 1 / 2 := by
  rcases Nat.eq_zero_or_pos number with rfl | positive
  · rw [Interval.project_of_le (by norm_num [unshifted])]
    norm_num [unshifted]
  · refine (Interval.abs_project_sub_le isSelfMap_unshifted isOrdered_unshifted.input (by decide)
      ?_ ?_).trans_lt ?_
    · exact Nat.cast_pos.mpr positive
    · exact Nat.cast_le_ofNat.mpr le
    · norm_num [unshifted]

/-- Rounding leaves the integers of the interval and nothing else. -/
theorem eq_round_unshifted_iff {value : Rat} :
    value - 127 = Exact.round (unshifted.project 256 value - 127) ↔
      ∃ number ≤ 254, value = (number : Nat) := by
  constructor
  · intro fixed
    have bounds : 0 ≤ unshifted.project 256 value ∧ unshifted.project 256 value ≤ 254 :=
      Interval.project_mem (by decide) isOrdered_unshifted.output value
    have low : ((-127 : Int) : Rat) ≤ value - 127 := by
      rw [fixed]
      refine Exact.le_round_of_le ?_
      push_cast
      linarith [bounds.1]
    have high : value - 127 ≤ ((127 : Int) : Rat) := by
      rw [fixed]
      refine Exact.round_le_of_le ?_
      push_cast
      linarith [bounds.2]
    obtain ⟨number, rounded⟩ := Exact.exists_round_eq (unshifted.project 256 value - 127)
    rw [fixed, rounded] at low high
    have low := Int.cast_le.mp low
    have high := Int.cast_le.mp high
    obtain ⟨step, equal⟩ := Int.eq_ofNat_of_zero_le (by omega : 0 ≤ number + 127)
    refine ⟨step, by omega, ?_⟩
    have cast : (number : Rat) + 127 = step := by exact_mod_cast equal
    linarith
  · rintro ⟨number, le, rfl⟩
    have rounded : Exact.round (unshifted.project 256 number - 127) =
        (((number : Int) - 127 : Int) : Rat) := by
      refine Exact.round_eq_of_abs_sub_lt ?_
      push_cast
      rw [sub_sub_sub_cancel_right]
      exact abs_project_unshifted_sub_lt le
    rw [rounded]
    push_cast
    rfl

theorem quantize_eq_shift_iff (rounding : Bool) (value : Rat) :
    value - 127 = signedInterval.quantize 256 rounding value ↔ IsAligned rounding value := by
  unfold IsAligned Interval.quantize
  rw [signedInterval_project]
  cases rounding with
  | false =>
      rw [if_neg Bool.false_ne_true, if_neg Bool.false_ne_true, sub_left_inj, eq_comm,
        Interval.project_eq_self_iff isSelfMap_unshifted isOrdered_unshifted.input (by decide)]
      simp only [level_unshifted]
  | true =>
      rw [if_pos rfl, if_pos rfl]
      exact eq_round_unshifted_iff

theorem size_eq_length_toList (tensor : Tensor Rat) : tensor.size = tensor.toList.length := by
  rw [Tensor.toList, NDArray.toList, Array.length_toList]
  rfl

theorem isEqualTo_iff {tensor : Tensor Rat} {value : Rat} :
    tensor.isEqualTo value = true ↔
      tensor.toList ≠ [] ∧ ∀ entry ∈ tensor.toList, entry = value := by
  simp [Tensor.isEqualTo, Tensor.isEmpty, size_eq_length_toList]

variable {limits : FoldLimits Rat} {data : Tensor Rat}

theorem isSignedShift_iff :
    limits.isSignedShift 256 = true ↔
      ∀ limit, (limits.get limit).toList ≠ [] ∧
        ∀ bound ∈ (limits.get limit).toList, bound = signedBound limit := by
  have cast : (Scalar.ofNat 254 : Rat) = 254 ∧ (Scalar.ofInt (-127) : Rat) = -127 ∧
      (Scalar.ofNat 127 : Rat) = 127 :=
    ⟨Exact.ofNat_eq 254, Exact.ofInt_eq (-127), Exact.ofNat_eq 127⟩
  unfold isSignedShift
  rw [cast.1, cast.2.1, cast.2.2, beq_self_eq_true, Bool.true_and, Bool.and_eq_true,
    Bool.and_eq_true, Bool.and_eq_true, isEqualTo_iff, isEqualTo_iff, isEqualTo_iff, isEqualTo_iff]
  constructor
  · rintro ⟨⟨⟨inputLow, inputHigh⟩, outputLow⟩, outputHigh⟩ limit
    cases limit <;> assumption
  · intro each
    exact ⟨⟨⟨each .inputLow, each .inputHigh⟩, each .outputLow⟩, each .outputHigh⟩

theorem valueAt_eq {values : List Rat} {value : Rat} {channel : Nat}
    (inside : values.length = 1 ∨ channel < values.length) (uniform : ∀ entry ∈ values, entry = value) :
    valueAt values channel = value := by
  have read {position : Nat} (below : position < values.length) : values.getD position 0 = value := by
    rw [List.getD_eq_getElem _ _ below]
    exact uniform _ (List.getElem_mem below)
  unfold valueAt
  split
  case isTrue single => exact read (single ▸ Nat.zero_lt_one)
  case isFalse several => exact read (inside.resolve_left several)

theorem channelInterval_eq {channel channels : Nat} (below : channel < channels)
    (counted : ∀ limit, (limits.get limit).IsPerChannel channels)
    (uniform : ∀ limit, ∀ bound ∈ (limits.get limit).toList, bound = signedBound limit) :
    limits.channelInterval channel = signedInterval := by
  have each (limit : LimitName) :
      valueAt (limits.get limit).toList channel = signedBound limit := by
    have size_eq := size_eq_length_toList (limits.get limit)
    refine valueAt_eq ?_ (uniform limit)
    rcases counted limit with one | all
    · exact Or.inl (size_eq.symm.trans one)
    · exact Or.inr (size_eq ▸ all ▸ below)
  rw [channelInterval, signedInterval, Interval.mk.injEq]
  exact ⟨each .inputLow, each .inputHigh, each .outputLow, each .outputHigh⟩

/-- The shift moves every element by 127. It does what scaling would do where scaling succeeds,
which takes data of one to five axes and limits with one element or one for each position of the
leading axis, and where the data is aligned. -/
theorem apply_signed (limits : FoldLimits Rat) (name : String) (data : Tensor Rat)
    (type : ElementType) (rounding : Bool)
    (uniform : ∀ limit, ∀ bound ∈ (limits.get limit).toList, bound = signedBound limit) :
    ((∃ limit, (limits.get limit).toList = []) →
      limits.apply name data 256 type rounding = limits.scale name data 256 type rounding) ∧
    ((∀ limit, (limits.get limit).toList ≠ []) →
      limits.apply name data 256 type rounding =
          .ok ((data.map (· - 127)).withElementType type) ∧
      (limits.apply name data 256 type rounding = limits.scale name data 256 type rounding ↔
        (data.shape ≠ [] ∧ data.shape.length ≤ maxRank) ∧
          (∀ limit, (limits.get limit).IsPerChannel (data.shape.headD 0)) ∧
          ∀ value ∈ data.toList, IsAligned rounding value)) := by
  constructor
  · rintro ⟨limit, empty⟩
    refine apply_of_not_isSignedShift (Bool.eq_false_iff.mpr fun shifts => ?_)
    exact (isSignedShift_iff.mp shifts limit).1 empty
  · intro nonempty
    have shifts := isSignedShift_iff.mpr fun limit => ⟨nonempty limit, uniform limit⟩
    have offset : limits.outputLow.first?.getD 0 = -127 := by
      obtain ⟨first, rest, list⟩ := List.exists_cons_of_ne_nil (nonempty .outputLow)
      have first_eq := uniform .outputLow first (list ▸ List.mem_cons_self)
      have list : limits.outputLow.toList = first :: rest := list
      rw [Tensor.first?, list]
      exact first_eq
    constructor
    · rw [apply_of_isSignedShift shifts, shift, offset]
      simp only [sub_eq_add_neg]
    · rw [apply_eq_scale_iff shifts, offset, Tensor.toList, NDArray.forall_mem_toList_iff,
        and_iff_right (by decide : 2 ≤ 256)]
      refine and_congr_right fun ranked => and_congr_right fun counted => ?_
      refine forall_congr' fun index => forall_congr' fun holds => ?_
      rw [← quantize_eq_shift_iff, ← sub_eq_add_neg,
        channelInterval_eq (holds.headD_lt ranked.1) counted uniform]
      exact Iff.rfl

/-- The limits of the shift, the upper one of the input for each of two channels. -/
def signedLimits : FoldLimits Rat where
  inputLow := .scalar .f32 0
  inputHigh :=
    { elementType := .f32, values := { shape := [2, 1], data := #[254, 254], size_data := rfl } }
  outputLow := .scalar .f32 (-127)
  outputHigh := .scalar .f32 127

theorem signedLimits_uniform (limit : LimitName) :
    ∀ bound ∈ (signedLimits.get limit).toList, bound = signedBound limit := by
  cases limit <;> decide

theorem apply_signed_column :
    signedLimits.apply "weights"
        { elementType := .f32, values := { shape := [2, 1], data := #[3, 254], size_data := rfl } }
        256 .i8 true =
      signedLimits.scale "weights"
        { elementType := .f32, values := { shape := [2, 1], data := #[3, 254], size_data := rfl } }
        256 .i8 true := by
  refine ((apply_signed signedLimits "weights" _ .i8 true signedLimits_uniform).2 ?_).2.mpr
    ⟨by decide, fun limit => by cases limit <;> decide, fun value member => ?_⟩
  · intro limit
    cases limit <;> decide
  · have member : value = 3 ∨ value = 254 := by
      simpa [Tensor.toList, NDArray.toList] using member
    rcases member with rfl | rfl
    · exact ⟨3, by decide, rfl⟩
    · exact ⟨254, by decide, rfl⟩

/-- Beyond the upper input limit the shift does not stop at the upper output limit. -/
theorem apply_signed_ne_scale :
    (∀ limit, (signedLimits.get limit).toList ≠ [] ∧
      ∀ bound ∈ (signedLimits.get limit).toList, bound = signedBound limit) ∧
    (signedLimits.apply "weights"
        { elementType := .f32, values := { shape := [2], data := #[3, 300], size_data := rfl } }
        256 .i8 true).map Tensor.toList = .ok [-124, 173] ∧
    (signedLimits.scale "weights"
        { elementType := .f32, values := { shape := [2], data := #[3, 300], size_data := rfl } }
        256 .i8 true).map Tensor.toList = .ok [-124, 127] := by
  refine ⟨fun limit => ⟨?_, signedLimits_uniform limit⟩, by cbv, by cbv⟩
  cases limit <;> decide

end Shift

end FoldLimits

/-! ## Quantization as a projection -/

section Projection

theorem Op.evaluate_fakeQuantize_eq_ok_iff [Scalar α] {limits : LimitArrays α} {levels : Nat}
    {integral : Bool} {feed : Option (NDArray α)} {data value : NDArray α} (enough : 2 ≤ levels) :
    (Op.fakeQuantize levels).evaluate integral (data :: limits.toList) feed = .ok value ↔
      limits.commonShape data.shape = .ok value.shape ∧ value.shape.IsAddressable ∧
        ∀ index, value.shape.Holds index →
          value.get index = (limits.intervalAt index).quantize levels integral (data.read index) := by
  rw [Op.evaluate_fakeQuantize_eq_ok enough]
  refine and_congr_right fun _ => and_congr_right fun _ => ?_
  constructor
  · intro equal index holds
    rw [equal, LimitArrays.quantize, NDArray.get_ofFn holds]
    rfl
  · intro each
    refine NDArray.ext_get rfl fun index holds => ?_
    rw [each index holds, LimitArrays.quantize, NDArray.get_ofFn holds]
    rfl

theorem FoldLimits.apply_eq_ok_iff [Scalar α] {limits : FoldLimits α} {name : String}
    {data tensor : Tensor α} {levels : Nat} {type : ElementType} {rounding : Bool}
    (enough : 2 ≤ levels) (scaled : limits.isSignedShift levels = false) :
    limits.apply name data levels type rounding = .ok tensor ↔
      (data.shape ≠ [] ∧ data.shape.length ≤ maxRank) ∧
        (∀ limit, (limits.get limit).IsPerChannel (data.shape.headD 0)) ∧
        tensor.elementType = type ∧ tensor.shape = data.shape ∧
        ∀ index, data.shape.Holds index → tensor.values.get index =
          (limits.channelInterval (index.headD 0)).quantize levels rounding
            (data.values.get index) := by
  rw [apply_of_not_isSignedShift scaled, scale_eq_ok, and_iff_right enough]
  refine and_congr_right fun _ => and_congr_right fun _ => ?_
  constructor
  · rintro rfl
    exact ⟨rfl, rfl, fun index holds => NDArray.get_ofFn holds⟩
  · rintro ⟨rfl, shapes, each⟩
    refine congrArg (Tensor.mk tensor.elementType) (NDArray.ext_get shapes fun index holds => ?_)
    have inside : data.shape.Holds index := shapes ▸ holds
    have inside : data.values.shape.Holds index := inside
    rw [channelwise, NDArray.get_ofFn inside]
    exact each index inside

/-- With two levels at least, an ordered interval is projected onto its levels. Evaluation
quantizes each element with the limits for its position, and folding with those for its leading
coordinate. -/
theorem quantization_projects {levels : Nat} (enough : 2 ≤ levels) :
    (∀ interval : Interval Rat, interval.IsOrdered → interval.ProjectsOnto levels) ∧
    (∀ (limits : LimitArrays Rat) (integral : Bool) (feed : Option (NDArray Rat))
      (data value : NDArray Rat),
      (Op.fakeQuantize levels).evaluate integral (data :: limits.toList) feed = .ok value ↔
        limits.commonShape data.shape = .ok value.shape ∧ value.shape.IsAddressable ∧
          ∀ index, value.shape.Holds index → value.get index =
            (limits.intervalAt index).quantize levels integral (data.read index)) ∧
    (∀ (limits : FoldLimits Rat) (name : String) (type : ElementType) (rounding : Bool)
      (data tensor : Tensor Rat), limits.isSignedShift levels = false →
      (limits.apply name data levels type rounding = .ok tensor ↔
        (data.shape ≠ [] ∧ data.shape.length ≤ FoldLimits.maxRank) ∧
          (∀ limit, (limits.get limit).IsPerChannel (data.shape.headD 0)) ∧
          tensor.elementType = type ∧ tensor.shape = data.shape ∧
          ∀ index, data.shape.Holds index → tensor.values.get index =
            (limits.channelInterval (index.headD 0)).quantize levels rounding
              (data.values.get index))) :=
  ⟨fun _ ordered => ordered.projectsOnto enough,
    fun _ _ _ _ _ => Op.evaluate_fakeQuantize_eq_ok_iff enough,
    fun _ _ _ _ _ _ scaled => FoldLimits.apply_eq_ok_iff enough scaled⟩

/-- Three levels that lie halfway between the integers. -/
def halfway : Interval Rat where
  inputLow := 1 / 2
  inputHigh := 5 / 2
  outputLow := 1 / 2
  outputHigh := 5 / 2

theorem quantization_projects_halfway : 2 ≤ 3 ∧ halfway.IsOrdered ∧ halfway.ProjectsOnto 3 := by
  have ordered : halfway.IsOrdered := by
    unfold halfway
    exact ⟨by norm_num, by norm_num⟩
  exact ⟨by decide, ordered, (quantization_projects (by decide)).1 halfway ordered⟩

/-- From the least of the levels halfway between the integers, repeated quantization climbs. -/
theorem halfway_climbs :
    halfway.IsOrdered ∧ halfway.IsSelfMap ∧ halfway.quantize 3 true (1 / 2) = 1 ∧
      halfway.quantize 3 true (halfway.quantize 3 true (1 / 2)) = 2 := by
  refine ⟨?_, ⟨rfl, rfl⟩, by cbv, by cbv⟩
  unfold halfway
  exact ⟨by norm_num, by norm_num⟩

end Projection

end QuantGraph
