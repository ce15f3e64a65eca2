import QuantGraph.Dequantization

namespace QuantGraph

/-! Dequantizations kept for nodes, one for each node at most. -/

structure DequantizationCache (α : Type) where
  entries : List (NodeId × Dequantization α)
  deriving Repr

namespace DequantizationCache

def empty : DequantizationCache α := { entries := [] }

def get? (cache : DequantizationCache α) (id : NodeId) : Option (Dequantization α) :=
  cache.entries.lookup id

/-- Remove the entry of a node. -/
def erase (cache : DequantizationCache α) (id : NodeId) : DequantizationCache α :=
  { entries := cache.entries.filter fun entry => entry.1 ≠ id }

/-- Keep an entry for a node, in place of the one it had. -/
def insert (cache : DequantizationCache α) (id : NodeId) (values : Dequantization α) :
    DequantizationCache α :=
  { entries := (id, values) :: (cache.erase id).entries }

/-- Let the entry of one node be that of another. -/
def rekey (cache : DequantizationCache α) (old new : NodeId) : DequantizationCache α :=
  if old = new then cache
  else
    match cache.get? old with
    | some values => (cache.erase old).insert new values
    | none => cache

def size (cache : DequantizationCache α) : Nat := cache.entries.length

def isEmpty (cache : DequantizationCache α) : Bool := cache.entries.isEmpty

/-- The cache with given entries. A later entry for a node wins. -/
def ofList (entries : List (NodeId × Dequantization α)) : DequantizationCache α :=
  entries.foldl (fun cache (id, values) => cache.insert id values) empty

end DequantizationCache

end QuantGraph
