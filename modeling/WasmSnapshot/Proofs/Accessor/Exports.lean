import WasmSnapshot.Accessor.Exports
import WasmSnapshot.Proofs.Accessor.IndexMap
import WasmSnapshot.Proofs.Accessor.Name
import WasmSnapshot.Proofs.Instrument.Additions

/-! The accessors that are found by the names of exports, and the exports that were added to a module,
with the items of an instance that they name. -/

namespace WasmSnapshot

namespace AccessorExports

variable {symbol : String} {exports : AccessorExports}

theorem foldl_add_of_none {entries : List (String × Extern)}
    (h : ∀ entry ∈ entries, Accessor.ofExportName? symbol entry.1 = none) :
    entries.foldl (add symbol) exports = exports := by
  induction entries with
  | nil => rfl
  | cons entry entries ih =>
    have hentry : add symbol exports entry = exports := by
      rw [add, h entry List.mem_cons_self]
    rw [List.foldl_cons, hentry]
    exact ih fun entry hmem => h entry (List.mem_cons_of_mem _ hmem)

theorem foldl_add_memory (address : Option Address) :
    (address.toList.map fun a => (Accessor.memory.exportName symbol, Extern.memory a)).foldl
      (add symbol) exports = { exports with memory := address.or exports.memory } := by
  cases address with
  | none => rfl
  | some a => simp [add, Accessor.ofExportName?_exportName]

theorem foldl_add_table (address : Option Address) :
    (address.toList.map fun a => (Accessor.table.exportName symbol, Extern.table a)).foldl
      (add symbol) exports = { exports with table := address.or exports.table } := by
  cases address with
  | none => rfl
  | some a => simp [add, Accessor.ofExportName?_exportName]

theorem foldl_add_functions (functions : List (UInt32 × Address)) :
    (functions.map fun entry =>
      ((Accessor.function entry.1).exportName symbol, Extern.function entry.2)).foldl
      (add symbol) exports = { exports with
        functions := functions.foldl (fun map entry => map.insert entry.1 entry.2)
          exports.functions } := by
  induction functions generalizing exports with
  | nil => rfl
  | cons entry functions ih =>
    have hentry : add symbol exports
        ((Accessor.function entry.1).exportName symbol, .function entry.2) =
        { exports with functions := exports.functions.insert entry.1 entry.2 } := by
      rw [add, Accessor.ofExportName?_exportName]
    rw [List.map_cons, List.foldl_cons, hentry, ih]
    rfl

theorem foldl_add_globals {globals : List (Accessor × Address)}
    (h : ∀ entry ∈ globals, entry.1.global?.isSome = true) :
    (globals.map fun entry => (entry.1.exportName symbol, Extern.function entry.2)).foldl
      (add symbol) exports = { exports with globals := exports.globals ++ globals } := by
  induction globals generalizing exports with
  | nil => rw [List.append_nil]; rfl
  | cons entry globals ih =>
    obtain ⟨accessor, address⟩ := entry
    have hglobal := h _ List.mem_cons_self
    have hentry : add symbol exports (accessor.exportName symbol, .function address) =
        { exports with globals := exports.globals ++ [(accessor, address)] } := by
      rw [add, Accessor.ofExportName?_exportName]
      cases accessor with
      | memory | table | function => cases hglobal
      | i32Getter | i32Setter | i64GetterHigh | i64GetterLow | i64Setter => rfl
    rw [List.map_cons, List.foldl_cons, hentry,
      ih fun entry hmem => h entry (List.mem_cons_of_mem _ hmem), List.append_assoc]
    rfl

end AccessorExports

theorem IndexMap.mem_foldl_insert {α : Type} {list : List (UInt32 × α)} {map : IndexMap α}
    {i : UInt32} {v : α}
    (h : ∀ j u w, (j, u) ∈ list → (j, w) ∈ list → u = w) :
    (i, v) ∈ (list.foldl (fun map entry => map.insert entry.1 entry.2) map).entries ↔
      (i, v) ∈ list ∨ (∀ w, (i, w) ∉ list) ∧ (i, v) ∈ map.entries := by
  induction list generalizing map with
  | nil => simp
  | cons entry list ih =>
    obtain ⟨j, u⟩ := entry
    rw [List.foldl_cons, ih fun j u w hu hw =>
      h j u w (List.mem_cons_of_mem _ hu) (List.mem_cons_of_mem _ hw), mem_insert]
    simp only [List.mem_cons, Prod.mk.injEq, not_or, not_and]
    constructor
    · rintro (hmem | ⟨habsent, heq | ⟨hne, hmem⟩⟩)
      · exact .inl (.inr hmem)
      · exact .inl (.inl heq)
      · exact .inr ⟨fun w => ⟨fun heq => absurd heq hne, habsent w⟩, hmem⟩
    · rintro ((⟨rfl, rfl⟩ | hmem) | ⟨habsent, hmem⟩)
      · by_cases hlater : ∃ w, (i, w) ∈ list
        · obtain ⟨w, hw⟩ := hlater
          rw [h i v w List.mem_cons_self (List.mem_cons_of_mem _ hw)]
          exact .inl hw
        · exact .inr ⟨fun w hw => hlater ⟨w, hw⟩, .inl ⟨rfl, rfl⟩⟩
      · exact .inl hmem
      · exact .inr ⟨fun w => (habsent w).2, .inr ⟨fun heq => (habsent u).1 heq rfl, hmem⟩⟩

theorem List.eq_filterMap_of_mapM {α β : Type} {f : α → Option β} {list : List α} {result : List β}
    (h : list.mapM f = some result) : result = list.filterMap f := by
  induction list generalizing result with
  | nil => cases h; rfl
  | cons a list ih =>
    rw [List.mapM_cons] at h
    simp only [Option.bind_eq_bind, Option.bind_eq_some_iff] at h
    obtain ⟨b, hb, rest, hrest, h⟩ := h
    cases h
    rw [List.filterMap_cons_some hb, ih hrest]

/-! ### The exports that were added -/

namespace Additions

variable {selection : Selection} {symbol : String} {outline : Outline} {scope : Scope}

/-- An export with its item. -/
def resolved (scope : Scope) (e : Export) : Option (String × Extern) :=
  (e.name, ·) <$> Instance.externOf? scope e

/-- The functions of the module itself, with their addresses. -/
def ownAddresses (outline : Outline) (scope : Scope) : List (UInt32 × Address) :=
  (ownFunctions outline).filterMap fun index => (index, ·) <$> scope.functions[index.toNat]?

/-- The accessors of globals, with the addresses of their functions. -/
def accessorAddresses (selection : Selection) (outline : Outline) (scope : Scope) :
    List (Accessor × Address) :=
  (accessorFunctions selection outline).zipIdx.filterMap fun (function, position) =>
    (function.accessor, ·) <$>
      scope.functions[(firstFunction outline + UInt32.ofNat position).toNat]?

theorem filterMap_itemExports : (itemExports selection symbol outline).filterMap (resolved scope) =
    ((if selection.memory then outline.memory else none).bind
      fun index => scope.memories[index.toNat]?).toList.map
        (fun a => (Accessor.memory.exportName symbol, Extern.memory a)) ++
    ((if selection.table then outline.table else none).bind
      fun index => scope.tables[index.toNat]?).toList.map
        (fun a => (Accessor.table.exportName symbol, Extern.table a)) ++
    (ownAddresses outline scope).map
      fun entry => ((Accessor.function entry.1).exportName symbol, Extern.function entry.2) := by
  rw [itemExports, List.filterMap_append, List.filterMap_append]
  congr 1
  · congr 1
    · cases if selection.memory then outline.memory else none with
      | none => rfl
      | some index =>
        cases hmemory : scope.memories[index.toNat]? <;>
          simp [resolved, Instance.externOf?, hmemory]
    · cases if selection.table then outline.table else none with
      | none => rfl
      | some index =>
        cases htable : scope.tables[index.toNat]? <;>
          simp [resolved, Instance.externOf?, htable]
  · rw [ownAddresses, List.filterMap_map, List.map_filterMap]
    congr 1
    funext index
    simp only [resolved, Instance.externOf?, Function.comp_def, Option.map_eq_map, Option.map_map]

theorem filterMap_functionExports :
    (functionExports symbol (firstFunction outline)
      (accessorFunctions selection outline)).filterMap (resolved scope) =
    (accessorAddresses selection outline scope).map
      fun entry => (entry.1.exportName symbol, Extern.function entry.2) := by
  rw [functionExports, accessorAddresses, List.filterMap_map, List.map_filterMap]
  congr 1
  funext entry
  simp only [resolved, Instance.externOf?, Function.comp_def, Option.map_eq_map, Option.map_map]

theorem mem_ownFunctions
    (hlt : outline.importedFunctions.toNat + outline.ownFunctions.toNat < 2 ^ 32) {index : UInt32} :
    index ∈ ownFunctions outline ↔ outline.importedFunctions.toNat ≤ index.toNat ∧
      index.toNat < outline.importedFunctions.toNat + outline.ownFunctions.toNat := by
  have hindex {n : Nat} (hn : n < outline.ownFunctions.toNat) :
      (outline.importedFunctions + UInt32.ofNat n).toNat = outline.importedFunctions.toNat + n := by
    rw [UInt32.toNat_add, UInt32.toNat_ofNat']
    omega
  simp only [ownFunctions, List.mem_map, List.mem_range]
  constructor
  · rintro ⟨n, hn, rfl⟩
    rw [hindex hn]
    omega
  · rintro ⟨hle, hlt'⟩
    have hn : index.toNat - outline.importedFunctions.toNat < outline.ownFunctions.toNat := by omega
    refine ⟨_, hn, ?_⟩
    rw [← UInt32.toNat_inj, hindex hn]
    omega

theorem mem_ownAddresses {index : UInt32} {address : Address} :
    (index, address) ∈ ownAddresses outline scope ↔
      index ∈ ownFunctions outline ∧ scope.functions[index.toNat]? = some address := by
  simp only [ownAddresses, List.mem_filterMap, Option.map_eq_map, Option.map_eq_some_iff,
    Prod.mk.injEq]
  constructor
  · rintro ⟨index, hmem, address, haddress, rfl, rfl⟩
    exact ⟨hmem, haddress⟩
  · rintro ⟨hmem, haddress⟩
    exact ⟨index, hmem, address, haddress, rfl, rfl⟩

theorem mem_accessorAddresses {accessor : Accessor} {address : Address} :
    (accessor, address) ∈ accessorAddresses selection outline scope ↔
      ∃ (position : Nat) (function : AccessorFunction),
        (accessorFunctions selection outline)[position]? = some function ∧
        function.accessor = accessor ∧
        scope.functions[(firstFunction outline + UInt32.ofNat position).toNat]? = some address := by
  simp only [accessorAddresses, List.mem_filterMap, Prod.exists, List.mem_zipIdx_iff_getElem?,
    Option.map_eq_map, Option.map_eq_some_iff, Prod.mk.injEq]
  constructor
  · rintro ⟨function, position, hget, address, haddress, rfl, rfl⟩
    exact ⟨position, function, hget, rfl, haddress⟩
  · rintro ⟨position, function, hget, rfl, haddress⟩
    exact ⟨function, position, hget, address, haddress, rfl, rfl⟩

end Additions

end WasmSnapshot
