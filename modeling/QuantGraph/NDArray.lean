import QuantGraph.Shape

namespace QuantGraph

/-! Dense arrays. The elements are kept in row-major order, and the type says
that there are as many as the shape asks for. Operations are written as a rule
that gives the element at each position. -/

@[ext] structure NDArray (α : Type) where
  shape : Shape
  data : Array α
  size_data : data.size = shape.size

namespace NDArray

instance [Repr α] : Repr (NDArray α) where
  reprPrec array _ := repr (array.shape, array.data)

instance [DecidableEq α] : DecidableEq (NDArray α) := fun left right =>
  decidable_of_iff (left.shape = right.shape ∧ left.data = right.data)
    ⟨fun equal => NDArray.ext equal.1 equal.2, fun equal => equal ▸ ⟨rfl, rfl⟩⟩

def size (array : NDArray α) : Nat := array.data.size

/-- The elements in row-major order. -/
def toList (array : NDArray α) : List α := array.data.toList

/-- The array of a shape whose element at each position is given. -/
def ofFn (shape : Shape) (element : Index → α) : NDArray α where
  shape := shape
  data := Array.ofFn fun number : Fin shape.size => element (shape.indexAt number)
  size_data := Array.size_ofFn

/-- The element at a position; outside of the array, the default value. -/
def get [Inhabited α] (array : NDArray α) (index : Index) : α :=
  array.data.getD (array.shape.offset index) default

/-- The array without axes that holds one value. -/
def scalar (value : α) : NDArray α where
  shape := []
  data := #[value]
  size_data := rfl

/-- The array of a shape that repeats one value. -/
def replicate (shape : Shape) (value : α) : NDArray α where
  shape := shape
  data := Array.replicate shape.size value
  size_data := Array.size_replicate

/-- The array with given elements, if there are as many as the shape asks for. -/
def ofList? (shape : Shape) (values : List α) : Option (NDArray α) :=
  if equal : values.toArray.size = shape.size then
    some { shape := shape, data := values.toArray, size_data := equal }
  else
    none

/-- Apply a function to every element. -/
def map (transform : α → β) (array : NDArray α) : NDArray β where
  shape := array.shape
  data := array.data.map transform
  size_data := by rw [Array.size_map, array.size_data]

/-- Apply a function to every element and its row-major number. -/
def mapNumbered (transform : Nat → α → β) (array : NDArray α) : NDArray β where
  shape := array.shape
  data := array.data.mapIdx transform
  size_data := by rw [Array.size_mapIdx, array.size_data]

/-- The same elements in the same order under another shape of the same size. -/
def withShape (array : NDArray α) (shape : Shape) (equal : array.shape.size = shape.size) :
    NDArray α where
  shape := shape
  data := array.data
  size_data := array.size_data.trans equal

/-- Repeat the elements along stretched axes. -/
def stretch [Inhabited α] (array : NDArray α) (target : Shape) : NDArray α :=
  ofFn target fun index => array.get (array.shape.stretchedIndex index)

/-- Combine two arrays element by element after broadcasting; nothing when the
shapes do not broadcast. -/
def zipWith? [Inhabited α] [Inhabited β] (combine : α → β → γ)
    (left : NDArray α) (right : NDArray β) : Option (NDArray γ) :=
  (left.shape.broadcast right.shape).map fun shape =>
    ofFn shape fun index =>
      combine (left.get (left.shape.stretchedIndex index))
        (right.get (right.shape.stretchedIndex index))

end NDArray

end QuantGraph
