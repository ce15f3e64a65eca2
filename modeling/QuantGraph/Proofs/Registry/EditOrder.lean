import Mathlib.Logic.Relation
import QuantGraph.Run

/-! In which order a registry is edited. A registry is a family of lists that know nothing of each
other: one for each kind in each keyed bucket, and one of standalone cleanups. What an edit does to
a list depends on that list alone, so only the order of the edits that concern one and the same list
counts. -/

namespace QuantGraph

namespace Registry

/-! ## Edits -/

/-- The buckets that are keyed by kind, and the list of standalone cleanups. -/
inductive Place where
  | branchSpecific
  | general
  | cleanup
  | standaloneCleanup
  deriving DecidableEq, Repr

inductive Edit where
  | add (place : Place) (transformation : Transformation)
  | remove (kind : OpKind)
  | removeBranchSpecific (kind : OpKind)
  | removeGeneral (kind : OpKind)
  | removeCleanup (kind : OpKind)
  | setUpdatePrecisions (value : Bool)
  | setSupportAsymmetric (value : Bool)
  deriving DecidableEq, Repr

def edit (registry : Registry) : Edit → Registry
  | .add .branchSpecific transformation => registry.addBranchSpecific transformation
  | .add .general transformation => registry.addGeneral transformation
  | .add .cleanup transformation => registry.addCleanup transformation
  | .add .standaloneCleanup transformation => registry.addStandaloneCleanup transformation
  | .remove kind => registry.remove kind
  | .removeBranchSpecific kind => registry.removeBranchSpecific kind
  | .removeGeneral kind => registry.removeGeneral kind
  | .removeCleanup kind => registry.removeCleanup kind
  | .setUpdatePrecisions value => registry.setUpdatePrecisions value
  | .setSupportAsymmetric value => registry.setSupportAsymmetric value

/-- The registry after a sequence of edits. -/
def edited (registry : Registry) (edits : List Edit) : Registry := edits.foldl edit registry

namespace Edit

/-- Additions to different places, or under different kinds of one keyed bucket. -/
inductive AreApart : Edit → Edit → Prop where
  | places {place other : Place} (different : place ≠ other) (first second : Transformation) :
      AreApart (.add place first) (.add other second)
  | kinds {place : Place} (keyed : place ≠ .standaloneCleanup) {first second : Transformation}
      (different : first.matchedKind ≠ second.matchedKind) :
      AreApart (.add place first) (.add place second)

/-- Two sequences of edits in which two neighbouring additions that are apart have changed places. -/
inductive Swaps : List Edit → List Edit → Prop where
  | between {first second : Edit} (apart : first.AreApart second) (before after : List Edit) :
      Swaps (before ++ first :: second :: after) (before ++ second :: first :: after)

/-- Two sequences of edits that differ by any number of such swaps. -/
def Reorders : List Edit → List Edit → Prop := Relation.ReflTransGen Swaps

end Edit

/-! ## The lists of a registry -/

/-- A list of a registry. -/
inductive Cell where
  | branchSpecific (kind : OpKind)
  | general (kind : OpKind)
  | cleanup (kind : OpKind)
  | standaloneCleanup
  deriving DecidableEq, Repr

def cell (registry : Registry) : Cell → List Transformation
  | .branchSpecific kind => registry.branchSpecific kind
  | .general kind => registry.general kind
  | .cleanup kind => registry.cleanup kind
  | .standaloneCleanup => registry.standaloneCleanup

theorem ext_cell {left right : Registry} (same : ∀ cell, left.cell cell = right.cell cell) :
    left = right := by
  cases left
  cases right
  simp only [Registry.mk.injEq]
  exact ⟨funext fun kind => same (.branchSpecific kind), funext fun kind => same (.general kind),
    funext fun kind => same (.cleanup kind), same .standaloneCleanup⟩

/-- The list to which a transformation is added. -/
def Place.cell : Place → OpKind → Cell
  | .branchSpecific, kind => .branchSpecific kind
  | .general, kind => .general kind
  | .cleanup, kind => .cleanup kind
  | .standaloneCleanup, _ => .standaloneCleanup

theorem Place.cell_ne_of_ne {place other : Place} (different : place ≠ other) (kind kind' : OpKind) :
    place.cell kind ≠ other.cell kind' := by
  cases place <;> cases other <;> simp_all [Place.cell]

theorem Place.cell_ne_of_kind_ne {place : Place} (keyed : place ≠ .standaloneCleanup)
    {kind kind' : OpKind} (different : kind ≠ kind') : place.cell kind ≠ place.cell kind' := by
  cases place <;> simp_all [Place.cell]

namespace Edit

/-- Whether an edit concerns a list. The policies of cleanups are never changed. -/
def concerns : Edit → Cell → Bool
  | .add place transformation, cell => cell = place.cell transformation.matchedKind
  | .remove kind, cell => cell ∈ [.branchSpecific kind, .general kind, .cleanup kind]
  | .removeBranchSpecific kind, cell => cell = .branchSpecific kind
  | .removeGeneral kind, cell => cell = .general kind
  | .removeCleanup kind, cell => cell = .cleanup kind
  | .setUpdatePrecisions _, cell | .setSupportAsymmetric _, cell =>
      match cell with
      | .branchSpecific _ | .general _ => true
      | .cleanup _ | .standaloneCleanup => false

/-- What an edit does to a list that it concerns. -/
def revise : Edit → List Transformation → List Transformation
  | .add _ transformation, list => list ++ [transformation]
  | .remove _, _ | .removeBranchSpecific _, _ | .removeGeneral _, _ | .removeCleanup _, _ => []
  | .setUpdatePrecisions value, list => list.map fun transformation =>
      { transformation with policy := { transformation.policy with updatePrecisions := value } }
  | .setSupportAsymmetric value, list => list.map fun transformation =>
      { transformation with policy := { transformation.policy with supportAsymmetric := value } }

end Edit

/-- An edit changes each list on its own. -/
theorem cell_edit (registry : Registry) (edit : Edit) (cell : Cell) :
    (registry.edit edit).cell cell =
      if edit.concerns cell then edit.revise (registry.cell cell) else registry.cell cell := by
  cases edit with
  | add place transformation =>
      cases place <;> cases cell <;>
        simp [Registry.edit, addBranchSpecific, addGeneral, addCleanup, addStandaloneCleanup,
          Registry.cell, Bucket.add, Edit.concerns, Edit.revise, Place.cell]
  | remove kind | removeBranchSpecific kind | removeGeneral kind | removeCleanup kind =>
      cases cell <;>
        simp [Registry.edit, Registry.remove, removeBranchSpecific, removeGeneral, removeCleanup,
          Registry.cell, Bucket.remove, Edit.concerns, Edit.revise]
  | setUpdatePrecisions value | setSupportAsymmetric value => cases cell <;> rfl

/-- The edits that do not concern a list can be left out for it. -/
theorem cell_edited (registry : Registry) (edits : List Edit) (cell : Cell) :
    (registry.edited edits).cell cell =
      (edits.filter fun edit => edit.concerns cell).foldl (fun list edit => edit.revise list)
        (registry.cell cell) := by
  induction edits generalizing registry with
  | nil => rfl
  | cons edit edits induction =>
      have later : (registry.edited (edit :: edits)).cell cell = _ := induction (registry.edit edit)
      rw [later, cell_edit, List.filter_cons]
      split
      case isTrue => rfl
      case isFalse => rfl

/-- Only the order of the edits that concern one and the same list counts. -/
theorem edited_eq_of_filter_eq {left right : List Edit}
    (same : ∀ cell, left.filter (fun edit => edit.concerns cell) =
      right.filter fun edit => edit.concerns cell)
    (registry : Registry) : registry.edited left = registry.edited right :=
  ext_cell fun cell => by rw [cell_edited, cell_edited, same]

/-! ## Additions that are apart -/

namespace Edit

variable {first second : Edit} {left right : List Edit}

/-- No list is concerned by both of two additions that are apart. -/
theorem AreApart.concerns_eq_false (apart : first.AreApart second) (cell : Cell) :
    first.concerns cell = false ∨ second.concerns cell = false := by
  have of_cell_ne {place other : Place} {added added' : Transformation}
      (different : place.cell added.matchedKind ≠ other.cell added'.matchedKind) :
      (Edit.add place added).concerns cell = false ∨
        (Edit.add other added').concerns cell = false := by
    by_cases here : cell = place.cell added.matchedKind
    · exact Or.inr (decide_eq_false (here ▸ different))
    · exact Or.inl (decide_eq_false here)
  cases apart with
  | places different first second => exact of_cell_ne (Place.cell_ne_of_ne different _ _)
  | kinds keyed different => exact of_cell_ne (Place.cell_ne_of_kind_ne keyed different)

theorem Swaps.filter_eq (swaps : Swaps left right) (cell : Cell) :
    left.filter (fun edit => edit.concerns cell) =
      right.filter fun edit => edit.concerns cell := by
  obtain ⟨apart, before, after⟩ := swaps
  simp only [List.filter_append, List.filter_cons]
  rcases apart.concerns_eq_false cell with alone | alone <;> simp [alone]

theorem Reorders.filter_eq (reorders : Reorders left right) (cell : Cell) :
    left.filter (fun edit => edit.concerns cell) =
      right.filter fun edit => edit.concerns cell := by
  induction reorders with
  | refl => rfl
  | tail _ swaps induction => exact induction.trans (swaps.filter_eq cell)

end Edit

/-- Two registries with the same listings, keys and answers, under which every run reports the same
and leaves the same graph. -/
structure Alike (left right : Registry) : Prop where
  branchSpecific : ∀ kind, left.branchSpecific kind = right.branchSpecific kind
  general : ∀ kind, left.general kind = right.general kind
  cleanup : ∀ kind, left.cleanup kind = right.cleanup kind
  standaloneCleanup : left.standaloneCleanup = right.standaloneCleanup
  branchSpecific_keys : left.branchSpecific.keys = right.branchSpecific.keys
  general_keys : left.general.keys = right.general.keys
  cleanup_keys : left.cleanup.keys = right.cleanup.keys
  find : ∀ kind, left.find kind = right.find kind
  transform : ∀ {α : Type} [Scalar α] (graph : Graph α),
    left.transform graph = right.transform graph

theorem Alike.refl (registry : Registry) : registry.Alike registry :=
  ⟨fun _ => rfl, fun _ => rfl, fun _ => rfl, rfl, rfl, rfl, rfl, fun _ => rfl, fun _ => rfl⟩

/-- Neighbouring additions to different places, or under different kinds, can change places any
number of times, among whatever other edits: the registries are alike, and so are their runs. -/
theorem alike_edited_of_reorders {left right : List Edit} (reorders : Edit.Reorders left right)
    (registry : Registry) : (registry.edited left).Alike (registry.edited right) := by
  rw [edited_eq_of_filter_eq reorders.filter_eq registry]
  exact .refl _

/-- Two transformations for one kind, which are overtaken by one for another kind, while the later of
them is overtaken by a cleanup too. -/
theorem alike_edited_overtaken :
    let under (rule : Rule) : Transformation := { rule := rule, policy := {} }
    let first := Edit.add .general (under .multiply)
    let second := Edit.add .general (under .subtractMultiplyToMultiplyAdd)
    let passing := Edit.add .general (under .fakeQuantize)
    let elsewhere := Edit.add .cleanup (under .fuseConvert)
    Edit.Reorders
        [.setUpdatePrecisions false, first, second, passing, elsewhere, .removeCleanup .multiply]
        [.setUpdatePrecisions false, passing, first, elsewhere, second, .removeCleanup .multiply] ∧
      ((all {}).edited [.setUpdatePrecisions false, first, second, passing, elsewhere,
          .removeCleanup .multiply]).Alike
        ((all {}).edited [.setUpdatePrecisions false, passing, first, elsewhere, second,
          .removeCleanup .multiply]) := by
  intro under first second passing elsewhere
  have reorders : Edit.Reorders
      [.setUpdatePrecisions false, first, second, passing, elsewhere, .removeCleanup .multiply]
      [.setUpdatePrecisions false, passing, first, elsewhere, second, .removeCleanup .multiply] := by
    refine .head (.between (.kinds (by decide) (by decide)) [.setUpdatePrecisions false, first] _) ?_
    refine .head (.between (.kinds (by decide) (by decide)) [.setUpdatePrecisions false] _) ?_
    exact .single (.between (.places (by decide) _ _) [.setUpdatePrecisions false, passing, first] _)
  exact ⟨reorders, alike_edited_of_reorders reorders (all {})⟩

end Registry

end QuantGraph
