import QuantGraph.Graph
import QuantGraph.Transformation

namespace QuantGraph

/-! The transformations of a run. Three buckets are keyed by the kind of node;
a fourth list holds the transformations that run in a pass of their own. -/

/-- The transformations for each kind, in the order in which they were added. -/
abbrev Bucket := OpKind → List Transformation

namespace Bucket

def empty : Bucket := fun _ => []

/-- Add a transformation behind those for its kind. -/
def add (bucket : Bucket) (transformation : Transformation) : Bucket := fun kind =>
  if kind = transformation.matchedKind then bucket kind ++ [transformation] else bucket kind

/-- Remove the transformations for a kind. -/
def remove (bucket : Bucket) (removed : OpKind) : Bucket := fun kind =>
  if kind = removed then [] else bucket kind

/-- The kinds with transformations, in order. -/
def keys (bucket : Bucket) : List OpKind := OpKind.all.filter fun kind => bucket kind ≠ []

/-- Change the policy of every transformation. -/
def mapPolicy (bucket : Bucket) (change : Policy → Policy) : Bucket := fun kind =>
  (bucket kind).map fun transformation =>
    { transformation with policy := change transformation.policy }

end Bucket

structure Registry where
  branchSpecific : Bucket
  general : Bucket
  cleanup : Bucket
  /-- Each of these gets a pass of its own, in this order. -/
  standaloneCleanup : List Transformation

namespace Registry

def empty : Registry where
  branchSpecific := .empty
  general := .empty
  cleanup := .empty
  standaloneCleanup := []

/-! ## Edits -/

def addBranchSpecific (registry : Registry) (transformation : Transformation) : Registry :=
  { registry with branchSpecific := registry.branchSpecific.add transformation }

def addGeneral (registry : Registry) (transformation : Transformation) : Registry :=
  { registry with general := registry.general.add transformation }

def addCleanup (registry : Registry) (transformation : Transformation) : Registry :=
  { registry with cleanup := registry.cleanup.add transformation }

def addStandaloneCleanup (registry : Registry) (transformation : Transformation) : Registry :=
  { registry with standaloneCleanup := registry.standaloneCleanup ++ [transformation] }

def removeBranchSpecific (registry : Registry) (kind : OpKind) : Registry :=
  { registry with branchSpecific := registry.branchSpecific.remove kind }

def removeGeneral (registry : Registry) (kind : OpKind) : Registry :=
  { registry with general := registry.general.remove kind }

def removeCleanup (registry : Registry) (kind : OpKind) : Registry :=
  { registry with cleanup := registry.cleanup.remove kind }

/-- Remove the transformations for a kind from the keyed buckets. -/
def remove (registry : Registry) (kind : OpKind) : Registry :=
  ((registry.removeBranchSpecific kind).removeGeneral kind).removeCleanup kind

/-- Change the policies of the branch-specific and the general transformations. -/
def mapPolicy (registry : Registry) (change : Policy → Policy) : Registry :=
  { registry with
    branchSpecific := registry.branchSpecific.mapPolicy change
    general := registry.general.mapPolicy change }

def setUpdatePrecisions (registry : Registry) (value : Bool) : Registry :=
  registry.mapPolicy fun policy => { policy with updatePrecisions := value }

def setSupportAsymmetric (registry : Registry) (value : Bool) : Registry :=
  registry.mapPolicy fun policy => { policy with supportAsymmetric := value }

/-- The default set of transformations, all under one policy. -/
def all (policy : Policy) : Registry :=
  let general : List Rule :=
    [.add, .avgPool, .fakeQuantize, .matMul, .maxPool, .multiply, .relu, .layout .reshape,
      .layout .squeeze, .layout .transpose, .layout .unsqueeze]
  let cleanup : List Rule := [.fuseConvert, .fuseFakeQuantize]
  let standalone : List Rule :=
    [.fuseSubtractToFakeQuantize, .fuseMultiplyToFakeQuantize, .subtractMultiplyToMultiplyAdd]
  let under (rule : Rule) : Transformation := { rule := rule, policy := policy }
  let branched := empty.addBranchSpecific (under .concatMultiChannels)
  let withGeneral := (general.map under).foldl addGeneral branched
  let withCleanup := (cleanup.map under).foldl addCleanup withGeneral
  (standalone.map under).foldl addStandaloneCleanup withCleanup

/-! ## Queries -/

/-- All transformations for a kind: the branch-specific ones first, then the
general ones, the cleanups, and the standalone cleanups. -/
def find (registry : Registry) (kind : OpKind) : List Transformation :=
  registry.branchSpecific kind ++ registry.general kind ++ registry.cleanup kind ++
    registry.standaloneCleanup.filter fun transformation => transformation.matchedKind = kind

/-- The transformations for the kind of a node; none for a missing node. -/
def findFor (registry : Registry) (graph : Graph α) (id : NodeId) : List Transformation :=
  match graph.kind? id with
  | some kind => registry.find kind
  | none => []

/-- Some transformation for the node's kind can run on quantized inputs. -/
def isQuantized (registry : Registry) (graph : Graph α) (id : NodeId) : Bool :=
  (registry.findFor graph id).any fun transformation => transformation.rule.isQuantized

/-- There are transformations for the node's kind, and all of them keep the
precision. -/
def preservesPrecision (registry : Registry) (graph : Graph α) (id : NodeId) : Bool :=
  let found := registry.findFor graph id
  !found.isEmpty && found.all fun transformation => transformation.rule.preservesPrecision

/-- The precisions that every transformation for the node's kind accepts, each
once, in the order of the first transformation. -/
def activationPrecisions (registry : Registry) (graph : Graph α) (id : NodeId) :
    List ElementType :=
  match registry.findFor graph id with
  | [] => []
  | first :: rest =>
      let distinct := first.activationPrecisions.foldl (fun seen precision =>
        if seen.contains precision then seen else seen ++ [precision]) []
      distinct.filter fun precision =>
        rest.all fun transformation => transformation.activationPrecisions.contains precision

end Registry

end QuantGraph
