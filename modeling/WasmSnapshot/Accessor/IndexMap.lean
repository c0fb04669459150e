/-! Finite maps from indices, as lists of entries in ascending order.

The order is part of the type. So maps with the same entries are equal, whatever the order in which
they were made, and the last entry is the one with the largest index. -/

namespace WasmSnapshot

/-- A finite map from indices. -/
structure IndexMap (α : Type) where
  /-- The indices with their values, no index twice. -/
  entries : List (UInt32 × α)
  ascending : entries.Pairwise fun a b => a.1 < b.1
  deriving DecidableEq, Repr

namespace IndexMap

variable {α : Type}

/-- The map without entries. -/
def empty : IndexMap α := ⟨[], .nil⟩

instance : Inhabited (IndexMap α) := ⟨empty⟩

/-- The map with `value` at `index`, in place of what was there before. -/
def insert (map : IndexMap α) (index : UInt32) (value : α) : IndexMap α where
  entries := map.entries.filter (·.1 < index) ++ (index, value) ::
    map.entries.filter (index < ·.1)
  ascending := by
    have below : ∀ a ∈ map.entries.filter (·.1 < index), a.1 < index := fun a h => by
      simpa using (List.mem_filter.1 h).2
    have above : ∀ b ∈ map.entries.filter (index < ·.1), index < b.1 := fun b h => by
      simpa using (List.mem_filter.1 h).2
    refine List.pairwise_append.2
      ⟨map.ascending.filter _, List.pairwise_cons.2 ⟨above, map.ascending.filter _⟩, ?_⟩
    intro a ha b hb
    rcases List.mem_cons.1 hb with rfl | hb
    · exact below a ha
    · exact UInt32.lt_trans (below a ha) (above b hb)

/-- The value at `index`. -/
def get? (map : IndexMap α) (index : UInt32) : Option α := map.entries.lookup index

end IndexMap

end WasmSnapshot
