import Mathlib
import QuantGraph.Proofs.Joint.Channels
import QuantGraph.Proofs.Joint.RawValues

/-! Where the elements of a layer come from. A Concat takes each of them from one of its parts and
pooling makes one of all under a window, so that every element stems from elements of fake
quantizations. Along axes on which windows join nothing, an element stems from one place of each. -/

namespace QuantGraph

namespace NDArray

variable {height width : Nat} {axes : List Nat} {index index' other : Index}

/-! ## Windows -/

theorem mem_windowIndices : other ∈ windowIndices height width index ↔
    ∃ row < height, ∃ column < width, other = [index.getD 0 0, index.getD 1 0,
      index.getD 2 0 * height + row, index.getD 3 0 * width + column] := by
  simp only [windowIndices, List.mem_flatMap, List.mem_map, List.mem_range]
  constructor
  · rintro ⟨row, below, column, beside, equal⟩
    exact ⟨row, below, column, beside, equal.symm⟩
  · rintro ⟨row, below, column, beside, equal⟩
    exact ⟨row, below, column, beside, equal.symm⟩

/-- No window joins positions that differ along some axes. -/
def JoinsBeside (axes : List Nat) (height width : Nat) : Prop :=
  (2 ∈ axes → height = 1) ∧ (3 ∈ axes → width = 1)

instance (axes : List Nat) (height width : Nat) : Decidable (JoinsBeside axes height width) :=
  inferInstanceAs (Decidable (_ ∧ _))

/-- What lies under the window for one position agrees with something under the window for another
where the positions agree. -/
theorem exists_mem_windowIndices_of_agrees
    (agrees : Shape.AgreesAlong axes index index') (inside : other ∈ windowIndices height width index) :
    ∃ other' ∈ windowIndices height width index', other.length = other'.length ∧
      Shape.AgreesAlong axes other other' := by
  obtain ⟨row, below, column, beside, rfl⟩ := mem_windowIndices.mp inside
  refine ⟨_, mem_windowIndices.mpr ⟨row, below, column, beside, rfl⟩, rfl, fun axis member => ?_⟩
  match axis with
  | 0 => exact agrees 0 member
  | 1 => exact agrees 1 member
  | 2 => exact congrArg (· * height + row) (agrees 2 member)
  | 3 => exact congrArg (· * width + column) (agrees 3 member)
  | axis + 4 => rfl

/-- Along these axes, what lies under a window lies where the window lies. -/
theorem agreesAlong_of_mem_windowIndices (joins : JoinsBeside axes height width)
    (length_eq : index.length = 4) (inside : other ∈ windowIndices height width index) :
    Shape.AgreesAlong axes other index := by
  obtain ⟨row, below, column, beside, rfl⟩ := mem_windowIndices.mp inside
  intro axis member
  match axis with
  | 0 => rfl
  | 1 => rfl
  | 2 =>
      obtain rfl := joins.1 member
      change index.getD 2 0 * 1 + row = index.getD 2 0
      omega
  | 3 =>
      obtain rfl := joins.2 member
      change index.getD 3 0 * 1 + column = index.getD 3 0
      omega
  | axis + 4 => exact (List.getD_eq_default index 0 (by omega)).symm

/-- Along these axes, pooling leaves extents as they are. -/
theorem along_pool {data pooled : NDArray Rat} {reduce : List Rat → Rat}
    (found : data.pool? height width reduce = some pooled) (joins : JoinsBeside axes height width) :
    pooled.shape.along axes = data.shape.along axes := by
  obtain ⟨batches, channels, rows, columns, shape_eq, rfl⟩ := pool?_eq_some found
  rw [shape_eq]
  refine Shape.along_congr rfl fun axis member => ?_
  match axis with
  | 0 => rfl
  | 1 => rfl
  | 2 => exact congrArg some (by rw [joins.1 member, Nat.div_one])
  | 3 => exact congrArg some (by rw [joins.2 member, Nat.div_one])
  | _ + 4 => rfl

/-! ## Parts -/

/-- A coordinate along several extents lies in one of them. -/
theorem exists_take_sum {extents : List Nat} {coordinate : Nat} (inside : coordinate < extents.sum) :
    ∃ place extent rest, extents[place]? = some extent ∧ rest < extent ∧
      coordinate = (extents.take place).sum + rest := by
  induction extents generalizing coordinate with
  | nil => cases inside
  | cons extent extents induction =>
      rw [List.sum_cons] at inside
      by_cases below : coordinate < extent
      · exact ⟨0, extent, coordinate, rfl, below, (Nat.zero_add coordinate).symm⟩
      · obtain ⟨place, other, rest, found, small, equal⟩ :=
          induction (show coordinate - extent < extents.sum by omega)
        refine ⟨place + 1, other, rest, found, small, ?_⟩
        rw [List.take_succ_cons, List.sum_cons]
        omega

theorem elementAlong_part [Inhabited α] {arrays : List (NDArray α)} {array : NDArray α}
    {axis place coordinate : Nat} (isArray : arrays[place]? = some array)
    (below : coordinate < array.extent axis) :
    elementAlong axis index arrays
        (((arrays.take place).map fun array => array.extent axis).sum + coordinate) =
      array.get (index.set axis coordinate) := by
  induction arrays generalizing place with
  | nil => cases isArray
  | cons first rest induction =>
      cases place with
      | zero =>
          cases Option.some.inj isArray
          rw [List.take_zero, List.map_nil, List.sum_nil, Nat.zero_add, elementAlong, if_pos below]
      | succ place =>
          rw [List.take_succ_cons, List.map_cons, List.sum_cons, elementAlong, if_neg (by omega),
            Nat.add_assoc, Nat.add_sub_cancel_left]
          exact induction isArray

/-- What is laid together is read from the part to which its coordinate leads. -/
theorem get_concatenate [Inhabited α] {arrays : List (NDArray α)} {array joined : NDArray α}
    {axis place coordinate : Nat} (isJoined : concatenate axis arrays = .ok joined)
    (holds : joined.shape.Holds index) (isArray : arrays[place]? = some array)
    (below : coordinate < array.extent axis)
    (equal : index.getD axis 0 =
      ((arrays.take place).map fun array => array.extent axis).sum + coordinate) :
    array.shape.Holds (index.set axis coordinate) ∧
      joined.get index = array.get (index.set axis coordinate) := by
  obtain ⟨_, _, parts, _, joined_eq⟩ := concatenate_eq_ok isJoined
  constructor
  · rw [parts array (List.mem_of_getElem? isArray)]
    exact holds.set below
  · rw [joined_eq, get_ofFn holds, equal, elementAlong_part isArray below]

theorem exists_part [Inhabited α] {arrays : List (NDArray α)} {joined : NDArray α} {axis : Nat}
    (isJoined : concatenate axis arrays = .ok joined) (holds : joined.shape.Holds index) :
    ∃ place array coordinate, arrays[place]? = some array ∧ coordinate < array.extent axis ∧
      index.getD axis 0 =
        ((arrays.take place).map fun array => array.extent axis).sum + coordinate := by
  obtain ⟨_, _, _, extent_eq, _⟩ := concatenate_eq_ok isJoined
  obtain ⟨place, extent, coordinate, isExtent, below, equal⟩ :=
    exists_take_sum (holds.getD_lt extent_eq)
  rw [List.getElem?_map] at isExtent
  obtain ⟨array, isArray, rfl⟩ := Option.map_eq_some_iff.mp isExtent
  exact ⟨place, array, coordinate, isArray, below, by rw [equal, List.map_take]⟩

/-- What is pooled is made of what lies under a window, which is something. -/
theorem get_pool {data pooled : NDArray Rat} {reduce : List Rat → Rat}
    (found : data.pool? height width reduce = some pooled) (holds : pooled.shape.Holds index) :
    index.length = 4 ∧ windowIndices height width index ≠ [] ∧
      (∀ other ∈ windowIndices height width index, data.shape.Holds other) ∧
      pooled.get index = reduce ((windowIndices height width index).map data.get) := by
  obtain ⟨batches, channels, rows, columns, shape_eq, rfl⟩ := pool?_eq_some found
  have holds : Shape.Holds [batches, channels, rows / height, columns / width] index := holds
  obtain ⟨nonempty, inside⟩ := holds_of_mem_windowIndices holds
  refine ⟨holds.length_eq, nonempty, shape_eq ▸ inside, ?_⟩
  rw [get_ofFn holds, window_eq_map]

end NDArray

/-! ## Elements of layers -/

namespace Graph

/-- The declared extent of a node along an axis. -/
def extentAlong (graph : Graph α) (axis : Nat) (id : NodeId) : Nat :=
  ((graph.shape? id).getD []).getD axis 0

theorem extentAlong_eq {graph : Graph α} {id : NodeId} {value : NDArray α} {axis : Nat}
    (isShape : graph.shape? id = some value.shape) : graph.extentAlong axis id = value.extent axis := by
  rw [extentAlong, isShape, Option.getD_some, NDArray.extent]

end Graph

theorem Op.Pools.kernel_eq [Scalar α] {op : Op α} {kernel kernel' : Kernel}
    {reduce reduce' : List α → α} (pools : op.Pools kernel reduce) (pools' : op.Pools kernel' reduce') :
    kernel = kernel' := by
  rcases pools with ⟨rfl, _⟩ | ⟨rfl, _⟩ <;> rcases pools' with ⟨equal, _⟩ | ⟨equal, _⟩ <;> cases equal <;>
    rfl

/-! ## Channels -/

namespace Op

def concatAxis? : Op α → Option Nat
  | concat axis => some axis
  | _ => none

def window? : Op α → Option Kernel
  | maxPool kernel | avgPool kernel => some kernel
  | _ => none

/-- A Concat lies along one of some axes, and no window joins positions that differ there. -/
def KeepsChannels (axes : List Nat) (op : Op α) : Prop :=
  (∀ axis ∈ op.concatAxis?, axis ∈ axes) ∧
    ∀ kernel ∈ op.window?, NDArray.JoinsBeside axes kernel.height kernel.width

instance (axes : List Nat) (op : Op α) : Decidable (op.KeepsChannels axes) :=
  inferInstanceAs (Decidable (_ ∧ _))

theorem KeepsChannels.joinsBeside [Scalar α] {axes : List Nat} {op : Op α} {kernel : Kernel}
    {reduce : List α → α} (keeps : op.KeepsChannels axes) (pools : op.Pools kernel reduce) :
    NDArray.JoinsBeside axes kernel.height kernel.width := by
  refine keeps.2 kernel ?_
  rcases pools with ⟨rfl, _⟩ | ⟨rfl, _⟩ <;> rfl

end Op

/-- Along some axes lie the Concats of a subgraph and the output limits of its fake quantizations,
and none of its windows joins positions that differ there. -/
structure Subgraph.KeepsChannels (subgraph : Subgraph) (graph : Graph α) (axes : List Nat) :
    Prop where
  ops : ∀ layer ∈ subgraph.layers, ∀ op ∈ graph.op? layer, op.KeepsChannels axes
  limits : ∀ quantizer ∈ subgraph.quantizers, ∀ name ∈ [LimitName.outputLow, .outputHigh],
    ∀ limit ∈ graph.limit? quantizer name, ∀ shape ∈ graph.shape? quantizer,
      limit.shape.StretchesTo (shape.along axes)

instance (subgraph : Subgraph) (graph : Graph α) (axes : List Nat) :
    Decidable (subgraph.KeepsChannels graph axes) :=
  decidable_of_iff ((∀ layer ∈ subgraph.layers, ∀ op ∈ graph.op? layer, op.KeepsChannels axes) ∧
    ∀ quantizer ∈ subgraph.quantizers, ∀ name ∈ [LimitName.outputLow, .outputHigh],
      ∀ limit ∈ graph.limit? quantizer name, ∀ shape ∈ graph.shape? quantizer,
        limit.shape.StretchesTo (shape.along axes))
    ⟨fun keeps => ⟨keeps.1, keeps.2⟩, fun keeps => ⟨keeps.ops, keeps.limits⟩⟩

section Elements

variable [Scalar α] {graph : Graph α} {subgraph : Subgraph} {axes : List Nat}
  {id origin : NodeId} {index index' position : Index}

/-- An element of what a layer gives stems from an element of what a fake quantization gives. -/
inductive Subgraph.Stems (subgraph : Subgraph) (graph : Graph α) :
    NodeId → Index → NodeId → Index → Prop
  | quantizer {id : NodeId} {index : Index} (member : id ∈ subgraph.quantizers) :
      Stems subgraph graph id index id index
  | concat {id origin : NodeId} {index position : Index} {axis place coordinate : Nat}
      {output : Output}
      (member : id ∈ subgraph.layers) (isOp : graph.op? id = some (.concat axis))
      (read : (graph.inputs id)[place]? = some output)
      (below : coordinate < graph.extentAlong axis output.node)
      (equal : index.getD axis 0 =
        (((graph.inputs id).take place).map fun output => graph.extentAlong axis output.node).sum +
          coordinate)
      (stems : Stems subgraph graph output.node (index.set axis coordinate) origin position) :
      Stems subgraph graph id index origin position
  | pool {id origin : NodeId} {index position other : Index} {op : Op α} {kernel : Kernel}
      {reduce : List α → α} {output : Output}
      (member : id ∈ subgraph.layers) (isOp : graph.op? id = some op)
      (pools : op.Pools kernel reduce) (read : (graph.inputs id)[0]? = some output)
      (inside : other ∈ NDArray.windowIndices kernel.height kernel.width index)
      (stems : Stems subgraph graph output.node other origin position) :
      Stems subgraph graph id index origin position

namespace Subgraph.Stems

theorem mem_quantizers (stems : subgraph.Stems graph id index origin position) :
    origin ∈ subgraph.quantizers := by
  induction stems with
  | quantizer member => exact member
  | concat _ _ _ _ _ _ induction => exact induction
  | pool _ _ _ _ _ _ induction => exact induction

omit [Scalar α] in
theorem agreesAlong_set {axis : Nat} (length_eq : index.length = index'.length)
    (agrees : Shape.AgreesAlong axes index index') (coordinate : Nat) :
    Shape.AgreesAlong axes (index.set axis coordinate) (index'.set axis coordinate) := by
  intro other member
  have same := agrees other member
  simp only [List.getD_eq_getElem?_getD, List.getElem?_set] at same ⊢
  rw [length_eq]
  split
  · rfl
  · exact same

/-- Elements that lie alike along these axes stem from elements that do. -/
theorem transport (stems : subgraph.Stems graph id index origin position)
    (keeps : subgraph.KeepsChannels graph axes) (length_eq : index.length = index'.length)
    (agrees : Shape.AgreesAlong axes index index') :
    ∃ position', subgraph.Stems graph id index' origin position' ∧
      Shape.AgreesAlong axes position position' := by
  induction stems generalizing index' with
  | quantizer member => exact ⟨index', .quantizer member, agrees⟩
  | concat member isOp read below equal _ induction =>
      obtain ⟨position', stems, agrees'⟩ := induction (by simpa using length_eq)
        (agreesAlong_set length_eq agrees _)
      refine ⟨position', .concat member isOp read below ?_ stems, agrees'⟩
      rw [← agrees _ ((keeps.ops _ member _ isOp).1 _ rfl), equal]
  | pool member isOp pools read inside _ induction =>
      obtain ⟨other', inside', same, agreesThere⟩ :=
        NDArray.exists_mem_windowIndices_of_agrees agrees inside
      obtain ⟨position', stems, agrees'⟩ := induction same agreesThere
      exact ⟨position', .pool member isOp pools read inside' stems, agrees'⟩

end Subgraph.Stems

end Elements

/-! ## Values -/

section Values

variable {graph : Graph Rat} {subgraph : Subgraph} {feeds : Assignment Rat} {id origin : NodeId}
  {value : NDArray Rat} {inputs : List (NDArray Rat)} {index position : Index} {axis : Nat}

namespace Graph

theorem HasValue.exists_parts (has : graph.HasValue feeds id value)
    (isOp : graph.op? id = some (.concat axis)) :
    ∃ inputs, graph.Derives feeds (graph.inputs id) inputs ∧
      NDArray.concatenate axis inputs = .ok value := by
  obtain ⟨node, inputs, found, derives, computed⟩ := hasValue_iff.mp has
  rw [op?, found, Option.map_some, Option.some.injEq] at isOp
  rw [isOp] at computed
  exact ⟨inputs, derives, Op.evaluate_concat_eq_ok.mp computed⟩

theorem HasValue.exists_data {op : Op Rat} {kernel : Kernel} {reduce : List Rat → Rat}
    {output : Output} (has : graph.HasValue feeds id value) (isOp : graph.op? id = some op)
    (pools : op.Pools kernel reduce) (read : (graph.inputs id)[0]? = some output) :
    ∃ data, graph.HasValue feeds output.node data ∧
      data.pool? kernel.height kernel.width reduce = some value := by
  obtain ⟨node, inputs, found, derives, computed⟩ := hasValue_iff.mp has
  rw [op?, found, Option.map_some, Option.some.injEq] at isOp
  rw [isOp] at computed
  obtain ⟨data, isData, pooled⟩ := pools.evaluate_eq_ok.mp computed
  exact ⟨data, related_of_getElem? derives read isData, pooled⟩

/-- The declared extents of what is read are those of the values. -/
theorem HasConsistentShapes.extents_eq (shapes : graph.HasConsistentShapes feeds)
    (derives : graph.Derives feeds (graph.inputs id) inputs) (axis place : Nat) :
    (((graph.inputs id).take place).map fun output => graph.extentAlong axis output.node) =
      (inputs.take place).map fun input => input.extent axis := by
  rw [← List.forall₂_eq_eq_eq, List.forall₂_map_left_iff, List.forall₂_map_right_iff]
  exact (List.forall₂_take place derives).imp fun output input has =>
    extentAlong_eq (shapes.declared _ _ has)

end Graph

/-- An element of a fake quantization stems from itself alone. -/
theorem Subgraph.stems_quantizer_iff (discovers : Subgraph.Discovers graph [] subgraph)
    (member : id ∈ subgraph.quantizers) :
    subgraph.Stems graph id index origin position ↔ origin = id ∧ position = index := by
  have kind := (discovers.quantizer_layer id member).2
  constructor
  · intro stems
    cases stems with
    | quantizer => exact ⟨rfl, rfl⟩
    | concat _ isOp =>
        rw [Graph.kind?_of_op? isOp] at kind
        cases kind
    | pool _ isOp pools =>
        rw [Graph.kind?_of_op? isOp] at kind
        rcases pools with ⟨rfl, _⟩ | ⟨rfl, _⟩ <;> cases kind
  · rintro ⟨rfl, rfl⟩
    exact .quantizer member

/-- An element of a Concat stems from what the element of a part stems from that it is. -/
theorem Subgraph.stems_concat_iff (shapes : graph.HasConsistentShapes feeds)
    (discovers : Subgraph.Discovers graph [] subgraph) (member : id ∈ subgraph.layers)
    (isOp : graph.op? id = some (.concat axis))
    (derives : graph.Derives feeds (graph.inputs id) inputs) :
    subgraph.Stems graph id index origin position ↔
      ∃ (place : Nat) (output : Output) (input : NDArray Rat) (coordinate : Nat),
        (graph.inputs id)[place]? = some output ∧ inputs[place]? = some input ∧
        coordinate < input.extent axis ∧
        index.getD axis 0 =
          ((inputs.take place).map fun input => input.extent axis).sum + coordinate ∧
        subgraph.Stems graph output.node (index.set axis coordinate) origin position := by
  constructor
  · intro stems
    cases stems with
    | quantizer listed =>
        have kind := (discovers.quantizer_layer id listed).2
        rw [Graph.kind?_of_op? isOp] at kind
        cases kind
    | concat _ isOp' read below equal stems =>
        cases Option.some.inj (isOp.symm.trans isOp')
        obtain ⟨input, isInput⟩ := Graph.exists_getElem?_of_length_eq derives.length_eq.symm read
        have extent_eq : _ = input.extent axis := Graph.extentAlong_eq
          (shapes.declared _ _ (Graph.related_of_getElem? derives read isInput))
        rw [shapes.extents_eq derives] at equal
        exact ⟨_, _, input, _, read, isInput, extent_eq ▸ below, equal, stems⟩
    | pool _ isOp' pools =>
        cases Option.some.inj (isOp.symm.trans isOp')
        rcases pools with ⟨other, _⟩ | ⟨other, _⟩ <;> cases other
  · rintro ⟨place, output, input, coordinate, read, isInput, below, equal, stems⟩
    refine .concat member isOp read ?_ ?_ stems
    · rwa [Graph.extentAlong_eq
        (shapes.declared _ _ (Graph.related_of_getElem? derives read isInput))]
    · rw [equal, shapes.extents_eq derives]

/-- An element that is pooled stems from what the elements under its window stem from. -/
theorem Subgraph.stems_pool_iff {op : Op Rat} {kernel : Kernel} {reduce : List Rat → Rat}
    {output : Output} (discovers : Subgraph.Discovers graph [] subgraph)
    (member : id ∈ subgraph.layers) (isOp : graph.op? id = some op)
    (pools : op.Pools kernel reduce) (read : (graph.inputs id)[0]? = some output) :
    subgraph.Stems graph id index origin position ↔
      ∃ other ∈ NDArray.windowIndices kernel.height kernel.width index,
        subgraph.Stems graph output.node other origin position := by
  constructor
  · intro stems
    cases stems with
    | quantizer listed =>
        have kind := (discovers.quantizer_layer id listed).2
        rw [Graph.kind?_of_op? isOp] at kind
        rcases pools with ⟨rfl, _⟩ | ⟨rfl, _⟩ <;> cases kind
    | concat _ isOp' =>
        cases Option.some.inj (isOp.symm.trans isOp')
        rcases pools with ⟨other, _⟩ | ⟨other, _⟩ <;> cases other
    | pool _ isOp' pools' read' inside stems =>
        cases Option.some.inj (isOp.symm.trans isOp')
        cases Option.some.inj (read.symm.trans read')
        have kernel_eq := pools.kernel_eq pools'
        exact ⟨_, kernel_eq ▸ inside, stems⟩
  · rintro ⟨other, inside, stems⟩
    exact .pool member isOp pools read inside stems

/-- An element of a layer stems from elements that are there. -/
theorem Subgraph.Stems.exists_holds (stems : subgraph.Stems graph id index origin position)
    (shapes : graph.HasConsistentShapes feeds) (has : graph.HasValue feeds id value)
    (holds : value.shape.Holds index) :
    ∃ source, graph.HasValue feeds origin source ∧ source.shape.Holds position := by
  induction stems generalizing value with
  | quantizer => exact ⟨value, has, holds⟩
  | concat _ isOp read below equal _ induction =>
      obtain ⟨inputs, derives, joined⟩ := has.exists_parts isOp
      obtain ⟨input, isInput⟩ := Graph.exists_getElem?_of_length_eq derives.length_eq.symm read
      have given := Graph.related_of_getElem? derives read isInput
      rw [Graph.extentAlong_eq (shapes.declared _ _ given)] at below
      rw [shapes.extents_eq derives] at equal
      exact induction given (NDArray.get_concatenate joined holds isInput below equal).1
  | pool _ isOp pools read inside _ induction =>
      obtain ⟨data, hasData, pooled⟩ := has.exists_data isOp pools read
      obtain ⟨_, _, inner, _⟩ := NDArray.get_pool pooled holds
      exact induction hasData (inner _ inside)

/-- Every element of a layer stems from some element of a fake quantization. -/
theorem Subgraph.exists_stems (wellFormed : graph.WellFormed)
    (discovers : Subgraph.Discovers graph [] subgraph) (shapes : graph.HasConsistentShapes feeds)
    (has : graph.HasValue feeds id value) (member : id ∈ subgraph.layers)
    (holds : value.shape.Holds index) :
    ∃ origin position, subgraph.Stems graph id index origin position := by
  induction has generalizing index with
  | @compute id node inputs value found length_eq known computed induction =>
      have derives := Graph.forall₂_of_getElem? length_eq known
      have isOp : graph.op? id = some node.op := by rw [Graph.op?, found, Option.map_some]
      rcases discovers.layer_kind id member with
        ⟨_, listed⟩ | ⟨kind, isConcat⟩ | ⟨kind, isKind, between⟩
      · exact ⟨id, index, .quantizer listed⟩
      · rw [Graph.kind?, found, Option.map_some, Option.some.injEq] at kind
        obtain ⟨axis, op_eq⟩ := Op.exists_concat_of_kind kind
        rw [op_eq] at isOp computed
        have joined := Op.evaluate_concat_eq_ok.mp computed
        obtain ⟨place, input, coordinate, isInput, below, equal⟩ := NDArray.exists_part joined holds
        obtain ⟨output, read⟩ := Graph.exists_getElem?_of_length_eq length_eq isInput
        have isLayer : output.node ∈ subgraph.layers :=
          (discovers.inputs id isConcat output (List.mem_of_getElem? read)).resolve_right (by simp)
        obtain ⟨origin, position, stems⟩ := induction place output input read isInput isLayer
          (NDArray.get_concatenate joined holds isInput below equal).1
        exact ⟨origin, position, (Subgraph.stems_concat_iff shapes discovers member isOp derives).mpr
          ⟨place, output, input, coordinate, read, isInput, below, equal, stems⟩⟩
      · rw [Graph.kind?, found, Option.map_some, Option.some.injEq] at isKind
        obtain ⟨kernel, reduce, pools⟩ := Op.exists_pools (isKind ▸ between)
        obtain ⟨output, read, isLayer⟩ :=
          Graph.QuantizesTogether.mem_layers_of_pools discovers wellFormed member found pools
        obtain ⟨data, isData, pooled⟩ := pools.evaluate_eq_ok.mp computed
        obtain ⟨_, nonempty, within, _⟩ := NDArray.get_pool pooled holds
        obtain ⟨other, inside⟩ := List.exists_mem_of_ne_nil _ nonempty
        obtain ⟨origin, position, stems⟩ :=
          induction 0 output data read isData isLayer (within other inside)
        exact ⟨origin, position, .pool member isOp pools read inside stems⟩

end Values

end QuantGraph
