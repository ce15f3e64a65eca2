import Mathlib
import QuantGraph.Proofs.NDArray.Closeness
import QuantGraph.Proofs.Outcome

/-! Dequantized arrays: a shift is subtracted from an array, and a scale multiplied by. Where the
constants are single numbers, every element changes by itself. -/

namespace QuantGraph

namespace Shape

variable {source target : Shape}

theorem StretchesTo.length_le (stretches : source.StretchesTo target) :
    source.length ≤ target.length := by
  obtain ⟨outer, inner, rfl, each⟩ := stretchesTo_iff_append.mp stretches
  rw [List.length_append, each.length_eq]
  exact Nat.le_add_left _ _

theorem eq_one_of_size_eq_one (single : source.size = 1) : ∀ extent ∈ source, extent = 1 := by
  induction source with
  | nil => simp
  | cons extent rest induction =>
      obtain ⟨one, rest_single⟩ := mul_eq_one.mp single
      exact List.forall_mem_cons.mpr ⟨one, induction rest_single⟩

/-- One element stretches to every shape with as many axes. -/
theorem stretchesTo_of_size_eq_one (single : source.size = 1)
    (rank : source.length ≤ target.length) : source.StretchesTo target := by
  refine stretchesTo_iff_append.mpr ⟨target.take (target.length - source.length),
    target.drop (target.length - source.length), (List.take_append_drop _ _).symm, ?_⟩
  refine List.forall₂_iff_get.mpr ⟨by rw [List.length_drop]; omega, fun axis below _ => Or.inr ?_⟩
  exact eq_one_of_size_eq_one single _ (List.get_mem _ _)

end Shape

namespace NDArray

section Reading

variable [Inhabited α] {array : NDArray α} {target : Shape} {index : Index}

theorem read_mem_toList (stretches : array.shape.StretchesTo target) (holds : target.Holds index) :
    array.read index ∈ array.toList := by
  have inside := offset_lt_size_data (holds.stretchedIndex stretches)
  rw [read, get_eq_getElem inside]
  exact Array.mem_toList_iff.mpr (Array.getElem_mem inside)

/-- The element of an array that has one element. -/
def element (array : NDArray α) : α := array.data.getD 0 default

theorem read_eq_element (single : array.shape.size = 1) (stretches : array.shape.StretchesTo target)
    (holds : target.Holds index) : array.read index = array.element := by
  have inside := (holds.stretchedIndex stretches).offset_lt
  rw [single, Nat.lt_one_iff] at inside
  rw [read, get, inside, element]

end Reading

variable [Scalar α] {binary : BinaryOp} {data constant scale shifted result : NDArray α}
  {shift : Option (NDArray α)}

/-- Combined with a single number, every element changes by itself. -/
theorem combine_single_eq_ok (single : constant.shape.size = 1)
    (rank : constant.shape.length ≤ data.shape.length) :
    combine binary data constant = .ok result ↔
      data.shape.IsAddressable ∧ result = data.map fun value =>
        binary.apply value constant.element := by
  have stretches := Shape.stretchesTo_of_size_eq_one single rank
  have common := stretches.broadcast_eq
  rw [combine_eq_ok, common, Option.some.injEq]
  constructor
  · rintro ⟨shape_eq, addressable, each⟩
    refine ⟨shape_eq ▸ addressable, ext_get shape_eq.symm fun index holds => ?_⟩
    have inside : data.shape.Holds index := shape_eq ▸ holds
    rw [each index holds, read_eq_get inside, read_eq_element single stretches inside,
      get_map inside]
  · rintro ⟨addressable, rfl⟩
    refine ⟨rfl, addressable, fun index holds => ?_⟩
    have inside : data.shape.Holds index := holds
    rw [get_map inside, read_eq_get inside, read_eq_element single stretches inside]

/-- Every element changes before it is combined with a number as well as after. -/
theorem combine_map {transform : α → α}
    (commutes : ∀ number ∈ constant.toList, ∀ value : α,
      transform (binary.apply value number) = binary.apply (transform value) number)
    (combined : combine binary data constant = .ok result) :
    combine binary (data.map transform) constant = .ok (result.map transform) := by
  obtain ⟨common, addressable, each⟩ := combine_eq_ok.mp combined
  obtain ⟨dataStretches, constantStretches⟩ := stretchesTo_of_combine combined
  refine combine_eq_ok.mpr ⟨common, addressable, fun index inside => ?_⟩
  have holds : result.shape.Holds index := inside
  rw [get_map holds, each index holds, read_map dataStretches holds]
  exact commutes _ (read_mem_toList constantStretches holds) _

/-- An array has no element but that of another without axes. -/
structure Repeats (constant number : NDArray α) : Prop where
  shape_eq : number.shape = []
  eq_element : ∀ value ∈ constant.toList, value = number.element

namespace Repeats

variable {number : NDArray α} (repeats : constant.Repeats number)

include repeats

theorem read_eq {target : Shape} {index : Index} (stretches : constant.shape.StretchesTo target)
    (holds : target.Holds index) : number.read index = constant.read index := by
  have numberStretches : number.shape.StretchesTo target :=
    repeats.shape_eq ▸ Shape.nil_stretchesTo target
  rw [read_eq_element (by rw [repeats.shape_eq]; rfl) numberStretches holds,
    repeats.eq_element _ (read_mem_toList stretches holds)]

theorem combine_right (stretches : constant.shape.StretchesTo data.shape)
    (combined : combine binary data constant = .ok result) :
    combine binary data number = .ok result := by
  obtain ⟨common, addressable, each⟩ := combine_eq_ok.mp combined
  have constantStretches := (stretchesTo_of_combine combined).2
  have shape_eq := Option.some.inj (stretches.broadcast_eq.symm.trans common)
  refine combine_eq_ok.mpr ⟨?_, addressable, fun index holds => ?_⟩
  · rw [repeats.shape_eq, ← shape_eq]
    exact (Shape.nil_stretchesTo data.shape).broadcast_eq
  · rw [each index holds, repeats.read_eq constantStretches holds]

theorem combine_left (stretches : constant.shape.StretchesTo data.shape)
    (combined : combine binary constant data = .ok result) :
    combine binary number data = .ok result := by
  obtain ⟨common, addressable, each⟩ := combine_eq_ok.mp combined
  obtain ⟨constantStretches, dataStretches⟩ := stretchesTo_of_combine combined
  have least := (Shape.broadcast_eq_some_iff.mp common).2.2
  have isLeast := least data.shape stretches (Shape.stretchesTo_refl data.shape)
  refine combine_eq_ok.mpr ⟨?_, addressable, fun index holds => ?_⟩
  · rw [repeats.shape_eq]
    exact Shape.broadcast_eq_some_iff.mpr ⟨Shape.nil_stretchesTo _, dataStretches,
      fun _ _ fromData => isLeast.trans fromData⟩
  · rw [each index holds, repeats.read_eq constantStretches holds]

end Repeats

/-- Subtract a shift, if there is one. -/
def lessShift (data : NDArray α) (shift : Option (NDArray α)) :
    Except BroadcastError (NDArray α) :=
  match shift with
  | some shift => combine .subtract data shift
  | none => .ok data

/-- Subtract a shift, if there is one, and multiply by a scale. -/
def dequantize (data : NDArray α) (shift : Option (NDArray α)) (scale : NDArray α) :
    Except BroadcastError (NDArray α) := do
  let shifted ← data.lessShift shift
  combine .multiply shifted scale

theorem dequantize_eq_ok : data.dequantize shift scale = .ok result ↔
    ∃ shifted, data.lessShift shift = .ok shifted ∧ combine .multiply shifted scale = .ok result :=
  Outcome.bind_eq_ok

/-- Without a shift, and with one number for a scale, every element is multiplied by that number. -/
theorem dequantize_single_eq_ok (single : scale.shape.size = 1)
    (rank : scale.shape.length ≤ data.shape.length) :
    data.dequantize none scale = .ok result ↔
      data.shape.IsAddressable ∧ result = data.map fun value => value * scale.element := by
  rw [dequantize_eq_ok]
  simp only [lessShift, Except.ok.injEq, exists_eq_left']
  exact combine_single_eq_ok single rank

/-- A shift that stretches to the shape of an array leaves it that shape. -/
theorem shape_eq_of_lessShift
    (stretches : ∀ constant ∈ shift, constant.shape.StretchesTo data.shape)
    (found : data.lessShift shift = .ok shifted) : shifted.shape = data.shape := by
  cases shift with
  | none =>
      cases found
      rfl
  | some constant =>
      have common := (combine_eq_ok.mp found).1
      exact Option.some.inj (common.symm.trans (stretches constant rfl).broadcast_eq)

theorem stretchesTo_of_lessShift (found : data.lessShift shift = .ok shifted) :
    data.shape.StretchesTo shifted.shape := by
  cases shift with
  | none =>
      cases found
      exact Shape.stretchesTo_refl _
  | some shift => exact (stretchesTo_of_combine found).1

/-- Constants without axes change every element by itself. -/
theorem exists_dequantize_eq_ok_iff (noShiftAxes : ∀ constant ∈ shift, constant.shape = [])
    (noScaleAxes : scale.shape = []) :
    ∃ transform : α → α, ∀ data result : NDArray α, data.dequantize shift scale = .ok result ↔
      data.shape.IsAddressable ∧ result = data.map transform := by
  have bare {binary : BinaryOp} {constant data result : NDArray α} (noAxes : constant.shape = []) :
      combine binary data constant = .ok result ↔ data.shape.IsAddressable ∧
        result = data.map fun value => binary.apply value constant.element :=
    combine_single_eq_ok (by rw [noAxes]; rfl) (by rw [noAxes]; exact Nat.zero_le _)
  cases shift with
  | none =>
      refine ⟨fun value => value * scale.element, fun data result => ?_⟩
      rw [dequantize_eq_ok]
      simp only [lessShift, Except.ok.injEq, exists_eq_left']
      exact bare noScaleAxes
  | some shift =>
      refine ⟨fun value => (value - shift.element) * scale.element, fun data result => ?_⟩
      rw [dequantize_eq_ok]
      simp only [lessShift, bare (noShiftAxes shift rfl), bare noScaleAxes]
      constructor
      · rintro ⟨_, ⟨addressable, rfl⟩, _, rfl⟩
        exact ⟨addressable, by simp [NDArray.map, BinaryOp.apply, Function.comp_def]⟩
      · rintro ⟨addressable, rfl⟩
        exact ⟨_, ⟨addressable, rfl⟩, addressable,
          by simp [NDArray.map, BinaryOp.apply, Function.comp_def]⟩

end NDArray

end QuantGraph
