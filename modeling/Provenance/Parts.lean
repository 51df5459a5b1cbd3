/-!
# Working in parts

Many items are shared out in parts to a pool of threads, which work side by side. All that is
assumed of the pool is that the parts, one behind the other, are the items.
-/

namespace Provenance

variable {α β : Type}

/-- From this number of items on they are shared out. -/
def parallelThreshold : Nat := 8

/-- Applies a function to items, to those of each part by themselves if there are many. The results
are joined in the order of the parts. -/
def mapInParts (f : α → β) (parts : List (List α)) (items : List α) : List β :=
  if parallelThreshold ≤ items.length then (parts.map (List.map f)).flatten else items.map f

theorem mapInParts_eq {f : α → β} {parts : List (List α)} {items : List α}
    (h : parts.flatten = items) : mapInParts f parts items = items.map f := by
  have hparts : (parts.map (List.map f)).flatten = items.map f := by rw [← List.map_flatten, h]
  rw [mapInParts, hparts, ite_self]

end Provenance
