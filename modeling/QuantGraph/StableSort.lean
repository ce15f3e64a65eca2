namespace QuantGraph

/-! Stable sorting of lists by a numeric key: entries with the same key keep
their order. -/

namespace StableSort

/-- Put an entry in front of the first one whose key is not smaller. -/
def insertBy (key : β → Nat) (entry : β) : List β → List β
  | [] => [entry]
  | head :: tail =>
      if key entry ≤ key head then entry :: head :: tail else head :: insertBy key entry tail

/-- Sort by increasing key. -/
def sortBy (key : β → Nat) (entries : List β) : List β := entries.foldr (insertBy key) []

example : sortBy Prod.fst [(2, 'a'), (1, 'b'), (2, 'c')] = [(1, 'b'), (2, 'a'), (2, 'c')] := by
  decide

theorem insertBy_perm (key : β → Nat) (entry : β) (entries : List β) :
    (insertBy key entry entries).Perm (entry :: entries) := by
  induction entries with
  | nil => exact List.Perm.refl _
  | cons head tail induction =>
      rw [insertBy]
      split
      · exact List.Perm.refl _
      · exact (induction.cons head).trans (List.Perm.swap entry head tail)

theorem sortBy_perm (key : β → Nat) (entries : List β) : (sortBy key entries).Perm entries := by
  induction entries with
  | nil => exact List.Perm.refl _
  | cons head tail induction => exact (insertBy_perm key head _).trans (induction.cons head)

@[simp] theorem mem_sortBy {key : β → Nat} {entries : List β} {entry : β} :
    entry ∈ sortBy key entries ↔ entry ∈ entries :=
  (sortBy_perm key entries).mem_iff

@[simp] theorem length_sortBy (key : β → Nat) (entries : List β) :
    (sortBy key entries).length = entries.length :=
  (sortBy_perm key entries).length_eq

/-- The first of every run of equal neighbours. -/
def dropRepeats [DecidableEq β] : List β → List β
  | [] => []
  | [entry] => [entry]
  | first :: second :: rest =>
      if first = second then dropRepeats (second :: rest)
      else first :: dropRepeats (second :: rest)

example : dropRepeats [1, 1, 2, 2, 3] = [1, 2, 3] := by decide

theorem length_dropRepeats_le [DecidableEq β] (entries : List β) :
    (dropRepeats entries).length ≤ entries.length := by
  induction entries using dropRepeats.induct with
  | case1 => exact Nat.le_refl _
  | case2 entry => exact Nat.le_refl _
  | case3 second rest induction =>
      rw [dropRepeats, if_pos rfl]
      exact Nat.le_succ_of_le induction
  | case4 first second rest differ induction =>
      rw [dropRepeats, if_neg differ]
      exact Nat.succ_le_succ induction

end StableSort

end QuantGraph
