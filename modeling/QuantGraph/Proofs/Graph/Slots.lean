import Mathlib.Data.List.Nodup
import QuantGraph.Graph

/-! Input slots. When the slots of a node are numbered from zero without gaps and
without repetition, the list of its inputs and the reading of one slot are two
views of the same edges. -/

namespace QuantGraph

namespace StableSort

theorem pairwise_insertBy (key : β → Nat) (entry : β) (entries : List β)
    (sorted : entries.Pairwise fun left right => key left ≤ key right) :
    (insertBy key entry entries).Pairwise fun left right => key left ≤ key right := by
  induction entries with
  | nil => simp [insertBy]
  | cons head tail induction =>
      have parts := List.pairwise_cons.mp sorted
      rw [insertBy]
      split
      case isTrue least =>
        refine List.pairwise_cons.mpr ⟨?_, sorted⟩
        intro other member
        rcases List.mem_cons.mp member with equal | member
        · exact equal ▸ least
        · exact Nat.le_trans least (parts.1 other member)
      case isFalse larger =>
        refine List.pairwise_cons.mpr ⟨?_, induction parts.2⟩
        intro other member
        rcases List.mem_cons.mp ((insertBy_perm key entry tail).mem_iff.mp member) with
          equal | member
        · subst equal
          omega
        · exact parts.1 other member

theorem pairwise_sortBy (key : β → Nat) (entries : List β) :
    (sortBy key entries).Pairwise fun left right => key left ≤ key right := by
  induction entries with
  | nil => exact List.Pairwise.nil
  | cons head tail induction => exact pairwise_insertBy key head _ induction

/-- Keys that number the entries come out in order. -/
theorem map_sortBy_of_perm_range {key : β → Nat} {entries : List β}
    (numbered : (entries.map key).Perm (List.range entries.length)) :
    (sortBy key entries).map key = List.range entries.length := by
  have perm : ((sortBy key entries).map key).Perm (List.range entries.length) :=
    ((sortBy_perm key entries).map key).trans numbered
  refine perm.eq_of_pairwise (fun left right _ _ (below : left ≤ right) above => ?_) ?_
    List.pairwise_le_range
  · exact Nat.le_antisymm below above
  · exact List.pairwise_map.mpr (pairwise_sortBy key entries)

/-- Entries with different keys come out in one order, however they stood before. -/
theorem sortBy_eq_of_perm {key : β → Nat} {left right : List β} (perm : left.Perm right)
    (distinct : (left.map key).Nodup) : sortBy key left = sortBy key right := by
  have sorted : (sortBy key left).Perm (sortBy key right) :=
    ((sortBy_perm key left).trans perm).trans (sortBy_perm key right).symm
  refine sorted.eq_of_pairwise (fun first second firstMember secondMember below above => ?_)
    (pairwise_sortBy key left) (pairwise_sortBy key right)
  refine List.inj_on_of_nodup_map distinct (mem_sortBy.mp firstMember) ?_
    (Nat.le_antisymm below above)
  exact perm.mem_iff.mpr (mem_sortBy.mp secondMember)

/-- Sorting keeps the first entry of every key the first of its key. -/
theorem find?_sortBy (key : β → Nat) (wanted : Nat) (entries : List β) :
    (sortBy key entries).find? (fun entry => key entry == wanted) =
      entries.find? fun entry => key entry == wanted := by
  have find?_insertBy (entry : β) (sorted : List β) :
      (insertBy key entry sorted).find? (fun entry => key entry == wanted) =
        (entry :: sorted).find? fun entry => key entry == wanted := by
    induction sorted with
    | nil => rfl
    | cons head tail induction =>
        rw [insertBy]
        split
        case isTrue => rfl
        case isFalse larger =>
          -- The head, which is passed, has a smaller key than the entry, hence another one.
          rw [List.find?_cons, induction, List.find?_cons, List.find?_cons, List.find?_cons]
          by_cases isWanted : key entry = wanted
          · have passed : (key head == wanted) = false := by simp; omega
            simp [isWanted, passed]
          · have skipped : (key entry == wanted) = false := by simpa using isWanted
            rw [skipped]
  induction entries with
  | nil => rfl
  | cons head tail induction =>
      change (insertBy key head (sortBy key tail)).find? _ = _
      rw [find?_insertBy, List.find?_cons, List.find?_cons, induction]

/-- An entry that is above none of the last ones is put in front of them. -/
theorem insertBy_append {key : β → Nat} {entry : β} (first : List β) {last : List β}
    (below : ∀ other ∈ last, key entry ≤ key other) :
    insertBy key entry (first ++ last) = insertBy key entry first ++ last := by
  induction first with
  | nil =>
      cases last with
      | nil => rfl
      | cons head tail =>
          change insertBy key entry (head :: tail) = entry :: head :: tail
          rw [insertBy, if_pos (below head List.mem_cons_self)]
  | cons head tail induction =>
      rw [List.cons_append, insertBy, insertBy, induction]
      split <;> rfl

theorem foldr_insertBy_append {key : β → Nat} {entries : List β} (first : List β) {last : List β}
    (below : ∀ entry ∈ entries, ∀ other ∈ last, key entry ≤ key other) :
    entries.foldr (insertBy key) (first ++ last) = entries.foldr (insertBy key) first ++ last := by
  induction entries with
  | nil => rfl
  | cons head tail induction =>
      rw [List.foldr_cons, List.foldr_cons,
        induction fun entry member => below entry (List.mem_cons_of_mem head member),
        insertBy_append _ (below head List.mem_cons_self)]

theorem filter_insertBy {key : β → Nat} (keep : β → Bool) {entry : β} {sorted : List β}
    (ordered : sorted.Pairwise fun left right => key left ≤ key right) :
    (insertBy key entry sorted).filter keep =
      if keep entry then insertBy key entry (sorted.filter keep) else sorted.filter keep := by
  induction sorted with
  | nil => simp [insertBy, List.filter_cons]
  | cons head tail induction =>
      obtain ⟨least, ordered⟩ := List.pairwise_cons.mp ordered
      rw [insertBy]
      split
      case isTrue isLeast =>
        have below : ∀ other ∈ (head :: tail).filter keep, key entry ≤ key other := by
          intro other member
          rcases List.mem_cons.mp (List.mem_filter.mp member).1 with rfl | later
          · exact isLeast
          · exact Nat.le_trans isLeast (least other later)
        rw [← List.nil_append ((head :: tail).filter keep), insertBy_append [] below,
          List.filter_cons]
        rfl
      case isFalse larger =>
        rw [List.filter_cons, List.filter_cons, induction ordered]
        by_cases kept : keep head = true
        · rw [if_pos kept, if_pos kept, insertBy, if_neg larger]
          split <;> rfl
        · rw [if_neg kept, if_neg kept]

/-- Entries can be left out before or after sorting. -/
theorem sortBy_filter (key : β → Nat) (keep : β → Bool) (entries : List β) :
    sortBy key (entries.filter keep) = (sortBy key entries).filter keep := by
  induction entries with
  | nil => rfl
  | cons head tail induction =>
      change _ = (insertBy key head (sortBy key tail)).filter keep
      rw [filter_insertBy keep (pairwise_sortBy key tail), ← induction, List.filter_cons]
      split <;> rfl

/-- In a sorted list, an entry whose key no other one is below comes first. -/
theorem eq_cons_of_find? {key : β → Nat} {least : Nat} {sorted : List β} {entry : β}
    (ordered : sorted.Pairwise fun left right => key left ≤ key right)
    (above : ∀ other ∈ sorted, least ≤ key other)
    (found : sorted.find? (fun entry => key entry == least) = some entry) :
    ∃ rest, sorted = entry :: rest := by
  cases sorted with
  | nil => cases found
  | cons head tail =>
      have isLeast : key entry = least := by simpa using List.find?_some found
      have head_le : key head ≤ least := by
        rcases List.mem_cons.mp (List.mem_of_find?_eq_some found) with rfl | member
        · exact Nat.le_of_eq isLeast
        · exact isLeast ▸ (List.pairwise_cons.mp ordered).1 entry member
      have head_eq : key head = least := Nat.le_antisymm head_le (above head List.mem_cons_self)
      have same : head = entry := by simpa [head_eq] using found
      exact ⟨tail, by rw [same]⟩

/-- Entries can be changed before or after sorting by a key of what they change to. -/
theorem sortBy_map_comp (key : γ → Nat) (change : β → γ) (entries : List β) :
    sortBy key (entries.map change) =
      (sortBy (fun entry => key (change entry)) entries).map change := by
  have insert_map (entry : β) (sorted : List β) :
      insertBy key (change entry) (sorted.map change) =
        (insertBy (fun entry => key (change entry)) entry sorted).map change := by
    induction sorted with
    | nil => rfl
    | cons head tail induction =>
        rw [List.map_cons, insertBy, insertBy, induction]
        split <;> rfl
  induction entries with
  | nil => rfl
  | cons head tail induction =>
      change insertBy key (change head) (sortBy key (tail.map change)) = _
      rw [induction, insert_map]
      rfl

/-- A change that leaves the keys alone can be made before or after sorting. -/
theorem sortBy_map {key : β → Nat} {change : β → β} (kept : ∀ entry, key (change entry) = key entry)
    (entries : List β) : sortBy key (entries.map change) = (sortBy key entries).map change := by
  have same : (fun entry => key (change entry)) = key := funext kept
  rw [sortBy_map_comp, same]

@[simp] theorem mem_dropRepeats [DecidableEq β] {entries : List β} {entry : β} :
    entry ∈ dropRepeats entries ↔ entry ∈ entries := by
  induction entries using dropRepeats.induct with
  | case1 => rfl
  | case2 => rfl
  | case3 first rest induction =>
      rw [dropRepeats, if_pos rfl, induction]
      simp
  | case4 first second rest different induction =>
      rw [dropRepeats, if_neg different, List.mem_cons, induction, List.mem_cons (b := first)]

end StableSort

namespace Graph

/-- A node reads an output on an input slot. -/
def Feeds (graph : Graph α) (output : Output) (reader : NodeId) (slot : Nat) : Prop :=
  ∃ edge ∈ graph.edges,
    edge.source = output ∧ edge.target = reader ∧ edge.inputSlot.toNat = slot

/-- The input slots of a node are the numbers below the number of its inputs,
each used by one edge. -/
def HasExactSlots (graph : Graph α) (id : NodeId) : Prop :=
  ((graph.incoming id).map fun edge => edge.inputSlot.toNat).Perm
    (List.range (graph.inputCount id))

/-- No two edges into a node enter the same slot. -/
def HasDistinctSlots (graph : Graph α) (id : NodeId) : Prop :=
  ((graph.incoming id).map fun edge => edge.inputSlot.toNat).Nodup

/-- At most one edge into a node enters a slot. -/
def ReadsOnce (graph : Graph α) (id : NodeId) (slot : Nat) : Prop :=
  (graph.incoming id).countP (fun edge => edge.inputSlot.toNat == slot) ≤ 1

instance (graph : Graph α) (id : NodeId) (slot : Nat) : Decidable (graph.ReadsOnce id slot) :=
  inferInstanceAs (Decidable (_ ≤ _))

variable {graph : Graph α} {id : NodeId}

theorem HasDistinctSlots.readsOnce (distinct : graph.HasDistinctSlots id) (slot : Nat) :
    graph.ReadsOnce id slot := by
  have once := List.nodup_iff_count_le_one.mp distinct slot
  rwa [List.count, List.countP_map] at once

theorem HasExactSlots.hasDistinctSlots (exact : graph.HasExactSlots id) :
    graph.HasDistinctSlots id := exact.nodup_iff.mpr List.nodup_range

theorem mem_incoming {edge : Edge} :
    edge ∈ graph.incoming id ↔ edge ∈ graph.edges ∧ edge.target = id := by
  simp [incoming]

theorem mem_outgoing {edge : Edge} :
    edge ∈ graph.outgoing id ↔ edge ∈ graph.edges ∧ edge.source.node = id := by
  simp [outgoing]

@[simp] theorem length_inputs (graph : Graph α) (id : NodeId) :
    (graph.inputs id).length = graph.inputCount id := by
  simp [inputs, inputCount]

private theorem getElem?_sorted_slots (exact : graph.HasExactSlots id) {slot : Nat} {edge : Edge}
    (found : (StableSort.sortBy (fun edge => edge.inputSlot.toNat) (graph.incoming id))[slot]? =
      some edge) : edge.inputSlot.toNat = slot := by
  have order := StableSort.map_sortBy_of_perm_range exact
  have read := congrArg (fun slots => slots[slot]?) order
  simp only [List.getElem?_map, found, Option.map_some] at read
  obtain ⟨inside, _⟩ := List.getElem?_eq_some_iff.mp found
  rw [StableSort.length_sortBy] at inside
  rw [List.getElem?_range inside] at read
  exact Option.some.inj read

theorem HasExactSlots.edge_unique (exact : graph.HasExactSlots id) {left right : Edge}
    (leftMember : left ∈ graph.incoming id) (rightMember : right ∈ graph.incoming id)
    (equal : left.inputSlot = right.inputSlot) : left = right := by
  exact List.inj_on_of_nodup_map exact.hasDistinctSlots leftMember rightMember
    (congrArg UInt8.toNat equal)

theorem HasExactSlots.getElem?_inputs (exact : graph.HasExactSlots id) {slot : Nat}
    {output : Output} :
    (graph.inputs id)[slot]? = some output ↔ graph.Feeds output id slot := by
  constructor
  · intro found
    rw [inputs, List.getElem?_map, Option.map_eq_some_iff] at found
    obtain ⟨edge, found, source⟩ := found
    have member := StableSort.mem_sortBy.mp (List.mem_of_getElem? found)
    exact ⟨edge, (mem_incoming.mp member).1, source, (mem_incoming.mp member).2,
      getElem?_sorted_slots exact found⟩
  · rintro ⟨edge, member, source, target, slotEq⟩
    have incoming : edge ∈ graph.incoming id := mem_incoming.mpr ⟨member, target⟩
    have sorted : edge ∈
        StableSort.sortBy (fun edge => edge.inputSlot.toNat) (graph.incoming id) :=
      StableSort.mem_sortBy.mpr incoming
    obtain ⟨position, inside, found⟩ := List.getElem_of_mem sorted
    have found := List.getElem?_eq_some_iff.mpr ⟨inside, found⟩
    have position_eq : edge.inputSlot.toNat = position := getElem?_sorted_slots exact found
    rw [inputs, List.getElem?_map, ← slotEq, position_eq, found, Option.map_some, source]

theorem HasExactSlots.input?_eq (exact : graph.HasExactSlots id) (slot : Nat) :
    graph.input? id slot = (graph.inputs id)[slot]? := by
  apply Option.ext
  intro output
  rw [exact.getElem?_inputs]
  constructor
  · intro found
    obtain ⟨edge, found, source⟩ := Option.map_eq_some_iff.mp found
    have member := mem_incoming.mp (List.mem_of_find?_eq_some found)
    have slotEq := List.find?_some found
    exact ⟨edge, member.1, source, member.2, by simpa using slotEq⟩
  · rintro ⟨edge, member, source, target, slotEq⟩
    have incoming : edge ∈ graph.incoming id := mem_incoming.mpr ⟨member, target⟩
    cases found : (graph.incoming id).find? fun edge => edge.inputSlot.toNat == slot with
    | none =>
        have absent := List.find?_eq_none.mp found edge incoming
        simp [slotEq] at absent
    | some other =>
        have otherMember := List.mem_of_find?_eq_some found
        have otherSlot : other.inputSlot.toNat = slot := by simpa using List.find?_some found
        have same : other = edge := exact.edge_unique otherMember incoming
          (UInt8.toNat_inj.mp (otherSlot.trans slotEq.symm))
        rw [input?, found, Option.map_some, same, source]

/-- Nodes are readers of the outputs in their lists of inputs, and of no others. -/
theorem HasExactSlots.mem_inputs (exact : graph.HasExactSlots id) {output : Output} :
    output ∈ graph.inputs id ↔ ∃ slot, graph.Feeds output id slot := by
  rw [List.mem_iff_getElem?]
  exact exists_congr fun slot => exact.getElem?_inputs

/-! ## The first inputs -/

/-- The output on the first slot is the first input, also where several are read there. -/
theorem inputs_eq_cons {output : Output} (found : graph.input? id 0 = some output) :
    ∃ rest, graph.inputs id = output :: rest := by
  obtain ⟨edge, entering, rfl⟩ := Option.map_eq_some_iff.mp found
  rw [← StableSort.find?_sortBy] at entering
  obtain ⟨rest, sorted⟩ :=
    StableSort.eq_cons_of_find? (StableSort.pairwise_sortBy _ _) (fun _ _ => Nat.zero_le _) entering
  exact ⟨rest.map Edge.source, by rw [inputs, sorted, List.map_cons]⟩

/-- Where one output at most is read on the first slot, that of the second slot comes next. -/
theorem ReadsOnce.inputs_eq_cons {left right : Output} (once : graph.ReadsOnce id 0)
    (foundLeft : graph.input? id 0 = some left) (foundRight : graph.input? id 1 = some right) :
    ∃ rest, graph.inputs id = left :: right :: rest := by
  obtain ⟨first, foundFirst, rfl⟩ := Option.map_eq_some_iff.mp foundLeft
  obtain ⟨second, foundSecond, rfl⟩ := Option.map_eq_some_iff.mp foundRight
  rw [← StableSort.find?_sortBy] at foundFirst foundSecond
  have ordered := StableSort.pairwise_sortBy (fun edge => edge.inputSlot.toNat) (graph.incoming id)
  obtain ⟨rest, sorted⟩ :=
    StableSort.eq_cons_of_find? ordered (fun _ _ => Nat.zero_le _) foundFirst
  have isFirst : first.inputSlot.toNat = 0 := by simpa using List.find?_some foundFirst
  have counted := (StableSort.sortBy_perm (fun edge => edge.inputSlot.toNat)
    (graph.incoming id)).countP_eq fun edge => edge.inputSlot.toNat == 0
  rw [sorted] at counted ordered foundSecond
  have none_left : rest.countP (fun edge => edge.inputSlot.toNat == 0) = 0 := by
    unfold ReadsOnce at once
    simp only [List.countP_cons, isFirst, BEq.rfl, if_true] at counted
    omega
  have above : ∀ edge ∈ rest, 1 ≤ edge.inputSlot.toNat := by
    intro edge member
    have nonzero := List.countP_eq_zero.mp none_left edge member
    simp only [beq_iff_eq] at nonzero
    omega
  have later : rest.find? (fun edge => edge.inputSlot.toNat == 1) = some second := by
    simpa [isFirst] using foundSecond
  obtain ⟨others, rfl⟩ :=
    StableSort.eq_cons_of_find? (List.pairwise_cons.mp ordered).2 above later
  exact ⟨others.map Edge.source, by rw [inputs, sorted, List.map_cons, List.map_cons]⟩

theorem mem_inputs_iff_edge {output : Output} :
    output ∈ graph.inputs id ↔ ∃ edge ∈ graph.edges, edge.source = output ∧ edge.target = id := by
  simp only [inputs, List.mem_map, StableSort.mem_sortBy, mem_incoming]
  constructor
  · rintro ⟨edge, member, source⟩
    exact ⟨edge, member.1, source, member.2⟩
  · rintro ⟨edge, member, source, target⟩
    exact ⟨edge, ⟨member, target⟩, source⟩

theorem mem_consumers {reader : NodeId} {slot : UInt8} :
    (reader, slot) ∈ graph.consumers id ↔
      ∃ edge ∈ graph.edges, edge.source.node = id ∧ edge.target = reader ∧
        edge.inputSlot = slot := by
  simp only [consumers, StableSort.mem_sortBy, List.mem_map, mem_outgoing, Prod.mk.injEq]
  constructor
  · rintro ⟨edge, member, target⟩
    exact ⟨edge, member.1, member.2, target⟩
  · rintro ⟨edge, member, source, target⟩
    exact ⟨edge, ⟨member, source⟩, target⟩

end Graph

end QuantGraph
