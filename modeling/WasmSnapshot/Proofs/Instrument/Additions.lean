import WasmSnapshot.Proofs.Instrument.Pushes
import WasmSnapshot.Proofs.Module.Entries

/-! What is added to a module, as lists: each accessor function at the same place of the type
indices, of the code and of the exports of functions. -/

namespace WasmSnapshot

namespace Additions

variable {selection : Selection} {symbol : String} {outline : Outline} {additions : Additions}

/-- The signatures that are added. -/
def signaturesFor (selection : Selection) (outline : Outline) : List Signature :=
  if outline.hasSection .types || !(exposedGlobals selection outline).isEmpty then
    Signature.inOrder
  else []

/-- The exports of what the module holds already. -/
def itemExports (selection : Selection) (symbol : String) (outline : Outline) : List Export :=
  (if selection.memory then outline.memory else none).toList.map
      (⟨Accessor.memory.exportName symbol, .memory, ·⟩) ++
    (if selection.table then outline.table else none).toList.map
      (⟨Accessor.table.exportName symbol, .table, ·⟩) ++
    (ownFunctions outline).map fun index =>
      ⟨(Accessor.function index).exportName symbol, .func, index⟩

/-- The exports of accessor functions, the first of which has the index `first`. -/
def functionExports (symbol : String) (first : UInt32) (functions : List AccessorFunction) :
    List Export :=
  functions.zipIdx.map fun (function, position) =>
    ⟨function.accessor.exportName symbol, .func, first + UInt32.ofNat position⟩

theorem foldl_addExport (indices : List UInt32) (additions : Additions) :
    indices.foldl (fun additions index => additions.addExport (.function index) .func index)
        additions = { additions with
      exports := additions.exports ++ (indices.map fun index =>
        (⟨(Accessor.function index).exportName additions.symbol, .func, index⟩ : Export)).toArray } := by
  induction indices generalizing additions with
  | nil => simp
  | cons index indices ih =>
    rw [List.foldl_cons, ih]
    simp [addExport]

theorem ofItems_eq (selection : Selection) (symbol : String) (outline : Outline) :
    ofItems selection symbol outline = {
      symbol
      firstType := outline.typeCount
      nextFunction := outline.importedFunctions + outline.ownFunctions
      signatures := (signaturesFor selection outline).toArray
      exports := (itemExports selection symbol outline).toArray } := by
  unfold ofItems
  rw [foldl_addExport]
  unfold itemExports signaturesFor
  cases outline.memory <;> cases outline.table <;> cases selection.memory <;>
    cases selection.table <;> simp [addExport, addSignatures] <;> split <;> simp

theorem functionExports_cons (symbol : String) (first : UInt32) (function : AccessorFunction)
    (functions : List AccessorFunction) :
    functionExports symbol first (function :: functions) =
      ⟨function.accessor.exportName symbol, .func, first⟩ ::
        functionExports symbol (first + 1) functions := by
  rw [functionExports, List.zipIdx_cons, List.zipIdx_succ, List.map_cons, List.map_map,
    functionExports]
  have hfirst : first + UInt32.ofNat 0 = first := by simp
  have hrest (entry : AccessorFunction × Nat) : first + UInt32.ofNat (entry.2 + 1) =
      first + 1 + UInt32.ofNat entry.2 := (UInt32.add_one_add_ofNat first entry.2).symm
  simp only [hfirst, Function.comp_def, hrest]

theorem recordsOf_map_function (symbol : String) (first : UInt32)
    (functions : List AccessorFunction) : Push.recordsOf symbol first (functions.map .function) =
      functionExports symbol first functions := by
  induction functions generalizing first with
  | nil => rfl
  | cons function functions ih =>
    rw [List.map_cons, Push.recordsOf, ih, functionExports_cons]

/-- All functions are added, or none: there are indices and type indices enough for them. -/
theorem foldlM_addFunction {functions : List AccessorFunction} {result : Additions}
    (h : functions.foldlM addFunction additions = .ok result) :
    additions.nextFunction.toNat + functions.length < 2 ^ 32 ∧
    (∀ f ∈ functions, additions.firstType.toNat + f.signature.offset.toNat < 2 ^ 32) ∧
    result = { additions with
      nextFunction := additions.nextFunction + UInt32.ofNat functions.length
      functions := additions.functions ++
        (functions.map fun f => additions.firstType + f.signature.offset).toArray
      code := additions.code ++ (functions.map (·.code)).toArray
      exports := additions.exports ++
        (functionExports additions.symbol additions.nextFunction functions).toArray } := by
  have hpushes : (functions.map Push.function).foldlM Push.apply additions = .ok result := by
    rwa [List.foldlM_map]
  obtain ⟨hindices, htypes, heq⟩ := after_of_foldlM hpushes
  rw [Push.functionsOf_map_function] at hindices htypes heq
  rw [Push.flatMap_newSignatures_map_function, recordsOf_map_function, Array.append_empty] at heq
  exact ⟨hindices, htypes, heq⟩

/-- The index of the first function that is added. -/
def firstFunction (outline : Outline) : UInt32 := outline.importedFunctions + outline.ownFunctions

/-- Additions, list by list. -/
structure Listed (selection : Selection) (symbol : String) (outline : Outline)
    (additions : Additions) : Prop where
  indices_lt : outline.importedFunctions.toNat + outline.ownFunctions.toNat +
    (accessorFunctions selection outline).length < 2 ^ 32
  types_lt : ∀ f ∈ accessorFunctions selection outline,
    outline.typeCount.toNat + f.signature.offset.toNat < 2 ^ 32
  signatures : additions.signatures.toList = signaturesFor selection outline
  functions : additions.functions.toList =
    (accessorFunctions selection outline).map fun f => outline.typeCount + f.signature.offset
  code : additions.code.toList = (accessorFunctions selection outline).map (·.code)
  exports : additions.exports.toList = itemExports selection symbol outline ++
    functionExports symbol (firstFunction outline) (accessorFunctions selection outline)

theorem listed_of_ofOutline (h : ofOutline selection symbol outline = .ok additions) :
    Listed selection symbol outline additions := by
  unfold ofOutline at h
  split at h
  · next hlt =>
    rw [ofItems_eq] at h
    obtain ⟨hindices, htypes, rfl⟩ := foldlM_addFunction h
    rw [UInt32.toNat_add, Nat.mod_eq_of_lt hlt] at hindices
    exact ⟨hindices, htypes, rfl, by simp, by simp, by simp [firstFunction]⟩
  · cases h

theorem readable_of_mem {function : AccessorFunction}
    (hmem : function ∈ Additions.accessorFunctions selection outline) : function.Readable := by
  obtain ⟨exposed, -, hmem⟩ := List.mem_flatMap.1 hmem
  exact IntType.readable_of_mem hmem

theorem mem_accessorFunctions {function : AccessorFunction} :
    function ∈ accessorFunctions selection outline ↔
      ∃ index type, (index, type) ∈ exposedGlobals selection outline ∧
        function ∈ type.accessorFunctions index := by
  simp [accessorFunctions, List.mem_flatMap]

/-- The signatures are there as soon as there is a function that needs them. -/
theorem signaturesFor_of_mem {function : AccessorFunction}
    (hmem : function ∈ accessorFunctions selection outline) :
    signaturesFor selection outline = Signature.inOrder := by
  obtain ⟨index, type, hexposed, -⟩ := mem_accessorFunctions.1 hmem
  have hsome : (exposedGlobals selection outline).isEmpty = false := by
    rw [List.isEmpty_eq_false_iff_exists_mem]
    exact ⟨_, hexposed⟩
  rw [signaturesFor, hsome]
  simp

/-- The type index of an accessor function designates its type. -/
theorem Listed.getElem?_types (h : Listed selection symbol outline additions)
    {function : AccessorFunction} (hmem : function ∈ accessorFunctions selection outline)
    {types : List CompositeType} (htypes : outline.typeCount.toNat = types.length) :
    (types ++ (signaturesFor selection outline).map fun s => CompositeType.func s.type)[
      (outline.typeCount + function.signature.offset).toNat]? =
      some (.func function.signature.type) := by
  rw [UInt32.toNat_add, Nat.mod_eq_of_lt (h.types_lt function hmem), htypes,
    List.getElem?_append_right (Nat.le_add_right _ _), Nat.add_sub_cancel_left,
    signaturesFor_of_mem hmem]
  cases function.signature <;> rfl

theorem mem_itemExports {e : Export} (h : e ∈ itemExports selection symbol outline) :
    ∃ accessor : Accessor, e.name = accessor.exportName symbol ∧ accessor.global? = none := by
  simp only [itemExports, List.mem_append, List.mem_map] at h
  rcases h with (⟨index, -, rfl⟩ | ⟨index, -, rfl⟩) | ⟨index, -, rfl⟩
  · exact ⟨.memory, rfl, rfl⟩
  · exact ⟨.table, rfl, rfl⟩
  · exact ⟨.function index, rfl, rfl⟩

theorem mem_functionExports {first : UInt32} {functions : List AccessorFunction} {e : Export} :
    e ∈ functionExports symbol first functions ↔ ∃ position function,
      functions[position]? = some function ∧
        e = ⟨function.accessor.exportName symbol, .func, first + UInt32.ofNat position⟩ := by
  simp only [functionExports, List.mem_map, Prod.exists, List.mem_zipIdx_iff_getElem?]
  constructor
  · rintro ⟨function, position, hget, rfl⟩
    exact ⟨position, function, hget, rfl⟩
  · rintro ⟨position, function, hget, rfl⟩
    exact ⟨function, position, hget, rfl⟩

/-! ### Entries that wait -/

theorem targets_sublist (additions : Additions) :
    additions.pending.targets.Sublist Additions.targets := by
  have hmap : (Additions.targets.map fun kind => (kind, additions.entries kind)).map (·.1) =
      Additions.targets := by rw [List.map_map]; exact List.map_id _
  rw [Pending.targets, pending, ← hmap]
  exact List.filter_sublist.map _

theorem targets_nodup (additions : Additions) : additions.pending.targets.Nodup :=
  additions.targets_sublist.nodup (by decide)

/-- What waits for a kind is what is to be added to it, unless that is nothing. -/
theorem lookup_pending (additions : Additions) (kind : SectionKind) :
    additions.pending.lookup kind =
      if kind ∈ targets then Module.someEntries (additions.entries kind) else none := by
  have hlookup (kinds : List SectionKind) :
      ((kinds.map fun kind => (kind, additions.entries kind)).filter
        fun entry => !entry.2.isEmpty).lookup kind =
        if kind ∈ kinds then Module.someEntries (additions.entries kind) else none := by
    induction kinds with
    | nil => rfl
    | cons first kinds ih =>
      rw [List.map_cons]
      cases hempty : (additions.entries first).isEmpty with
      | false =>
        rw [List.filter_cons_of_pos (by simp [hempty])]
        by_cases hkind : kind = first
        · subst hkind
          simp [Module.someEntries, hempty]
        · rw [Pending.lookup_cons_ne hkind, ih]
          simp [hkind]
      | true =>
        rw [List.filter_cons_of_neg (by simp [hempty]), ih]
        by_cases hkind : kind = first
        · subst hkind
          simp [Module.someEntries, hempty]
        · simp [hkind]
  exact hlookup targets

/-- What waits for some of the kinds, as sections of its own. -/
theorem newSections_pending (additions : Additions) (p : SectionKind → Bool) :
    Pending.newSections (additions.pending.filter fun entry => p entry.1) =
      (targets.filter fun kind => !(additions.entries kind).isEmpty && p kind).map fun kind =>
        ⟨kind.id, (additions.entries kind).contents⟩ := by
  rw [Pending.newSections, pending, List.filter_filter, List.filter_map, List.map_map]
  simp only [Function.comp_def, Bool.and_comm]

end Additions

end WasmSnapshot
