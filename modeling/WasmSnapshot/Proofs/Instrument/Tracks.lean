import WasmSnapshot.Proofs.Binary.Cuts
import WasmSnapshot.Proofs.Instrument.Exports
import WasmSnapshot.Proofs.Instrument.Pushes

/-! The tracks of additions in the making: signatures, type indices, bodies and exports, each of them
bytes with a count. The bytes of a track are cut into entries in one way only, and the type index and
the body at the same place, with the export that was pushed along with them, are of one accessor. -/

namespace WasmSnapshot

open Reader

namespace EntryFormat

/-- A group of type definitions. -/
def group : EntryFormat (List SubType) := ofReader SubType.readGroup

theorem group_encode (signature : Signature) :
    group signature.encode [⟨[], false, .func signature.type⟩] := by
  have hread := signature.reads_encode []
  rwa [List.append_nil] at hread

theorem delimited_group : group.Delimited := delimited_ofReader SubType.readGroup rfl

/-- An export: its name with the size of it, a kind and an index. -/
def record : EntryFormat ExportEntry := fun word entry => ∃ name position,
  sized name entry.name ∧ index position entry.index ∧ word = name ++ entry.kind.code :: position

theorem record_encode (e : Export) : record e.encode e.entry :=
  ⟨_, _, sized_encode _, index_encode e.index, rfl⟩

theorem delimited_record : record.Delimited where
  ne_nil := by
    rintro _ _ ⟨name, position, hname, -, rfl⟩ hnil
    exact delimited_sized.ne_nil hname (List.append_eq_nil_iff.1 hnil).1
  append_inj := by
    rintro _ _ rest rest' ⟨bytes, kind, i⟩ ⟨bytes', kind', i'⟩ ⟨name, position, hname, hindex, rfl⟩
      ⟨name', position', hname', hindex', rfl⟩ heq
    rw [List.append_assoc, List.append_assoc] at heq
    obtain ⟨rfl, rfl⟩ := delimited_sized.append_inj hname hname' heq
    obtain ⟨hkind, heq⟩ := List.cons.inj (List.append_cancel_left heq)
    obtain ⟨rfl, rfl⟩ := delimited_index.append_inj hindex hindex' heq
    obtain rfl : kind = kind' := by cases kind <;> cases kind' <;> first | rfl | cases hkind
    exact ⟨rfl, rfl⟩

end EntryFormat

namespace Entries

variable {α β : Type} {format : EntryFormat β} {item : Reader β} {encode : α → Bytes}
  {decode : α → β} {values : List α}

/-- Entries are these words with these values, as many as are counted, and their bytes are cut in no
other way. A reader of a section takes them so, if it can take words of their length at all. -/
structure Splits (format : EntryFormat β) (item : Reader β) (entries : Entries)
    (parts : List (Bytes × β)) : Prop where
  count : entries.count.toNat = parts.length
  cut : Cut format entries.bytes parts
  unique : ∀ others, Cut format entries.bytes others → others = parts
  read : (∀ part ∈ parts, part.1.length < 2 ^ 32) →
    (times item entries.count.toNat).whole entries.bytes = some (parts.map Prod.snd)

theorem ofList_map (encode : β → Bytes) (g : α → β) (values : List α) :
    ofList encode (values.map g) = ofList (fun v => encode (g v)) values := by
  rw [ofList, ofList, List.length_map, List.flatMap_map]

theorem splits_ofList (hformat : format.Delimited) (hwords : ∀ v, format (encode v) (decode v))
    (hreads : ∀ v, (encode v).length < 2 ^ 32 → Reads item (encode v) (decode v))
    (hlength : values.length < 2 ^ 32) :
    (ofList encode values).Splits format item (values.map fun v => (encode v, decode v)) := by
  have hcut : Cut format (values.flatMap encode) (values.map fun v => (encode v, decode v)) :=
    .of_flatMap fun v _ => hwords v
  refine ⟨?_, hcut, fun others hothers => hcut.unique hformat hothers, fun hshort => ?_⟩
  · rw [count_ofList hlength, List.length_map]
  · have hread := times_flatMap (fun v hv => hreads v (hshort _ (List.mem_map_of_mem hv))) []
    rw [List.append_nil] at hread
    rw [count_ofList hlength, List.map_map]
    exact whole_of_eq_some hread

end Entries

namespace Additions

variable {symbol : String} {typeCount functionCount : UInt32} {pushes : List Push}
  {result : Additions}

/-- What additions to a module of so many types and functions are after these pushes. -/
structure Advanced (symbol : String) (typeCount functionCount : UInt32) (pushes : List Push)
    (result : Additions) : Prop where
  functions_count : (result.entries .functions).count.toNat = (Push.functionsOf pushes).length
  code_count : (result.entries .code).count = (result.entries .functions).count
  exports_count : (result.entries .exports).count.toNat = pushes.countP Push.exports
  exports_size : (result.entries .exports).count.toNat = result.exports.size
  records : result.exports.toList = Push.recordsOf symbol functionCount pushes
  nextFunction : result.nextFunction.toNat =
    functionCount.toNat + (result.entries .functions).count.toNat
  types : (result.entries .types).Splits .group SubType.readGroup
    ((pushes.flatMap Push.newSignatures).map fun s => (s.encode, [⟨[], false, .func s.type⟩]))
  functions : (result.entries .functions).Splits .index Leb128.index
    ((Push.functionsOf pushes).map fun f =>
      (Instr.encodeIndex (typeCount + f.signature.offset), typeCount + f.signature.offset))
  code : (result.entries .code).Splits .sized Outline.readOpaqueBody
    ((Push.functionsOf pushes).map fun f => (Instr.encodeBody f.code, f.body))
  exports : (result.entries .exports).Splits .record ExportEntry.read
    (result.exports.toList.map fun e => (e.encode, e.entry))
  /-- What is decoded at the place of a function, and the export that was recorded for it. -/
  accessor {before after : List Push} {f : AccessorFunction}
    (hpushes : pushes = before ++ .function f :: after) {references : List (Bytes × UInt32)}
    (hreferences : Cut .index (result.entries .functions).bytes references)
    {bodies : List (Bytes × Bytes)} (hbodies : Cut .sized (result.entries .code).bytes bodies)
    {exported : List (Bytes × ExportEntry)}
    (hexported : Cut .record (result.entries .exports).bytes exported) : ∃ type index : UInt32,
      type.toNat = typeCount.toNat + f.signature.offset.toNat ∧
      index.toNat = functionCount.toNat + (Push.functionsOf before).length ∧
      references[(Push.functionsOf before).length]?.map Prod.snd = some type ∧
      bodies[(Push.functionsOf before).length]?.map Prod.snd = some f.body ∧
      result.exports[before.countP Push.exports]? =
        some ⟨f.accessor.exportName symbol, .func, index⟩ ∧
      exported[before.countP Push.exports]?.map Prod.snd =
        some ⟨(f.accessor.exportName symbol).toUTF8.data.toList, .func, index⟩

namespace After

variable (h : After (empty symbol typeCount functionCount) pushes result)

include h

theorem entries_types : result.entries .types =
    .ofList Signature.encode (pushes.flatMap Push.newSignatures) := by
  rw [h.eq]
  simp [entries, empty]

theorem entries_functions : result.entries .functions =
    .ofList (fun f => Instr.encodeIndex (typeCount + f.signature.offset))
      (Push.functionsOf pushes) := by
  rw [h.eq, ← Entries.ofList_map]
  simp [entries, empty]

theorem entries_code : result.entries .code =
    .ofList (fun f => Instr.encodeBody f.code) (Push.functionsOf pushes) := by
  rw [h.eq, ← Entries.ofList_map]
  simp [entries, empty]

theorem exports_eq : result.exports.toList = Push.recordsOf symbol functionCount pushes := by
  rw [h.eq]
  simp [empty]

theorem toNat_nextFunction : result.nextFunction.toNat =
    functionCount.toNat + (Push.functionsOf pushes).length := by
  have hlt := h.indices_lt
  simp only [empty] at hlt
  rw [h.eq]
  simp only [empty]
  rw [UInt32.toNat_add, UInt32.toNat_ofNat']
  omega

theorem splits_functions (hlength : (Push.functionsOf pushes).length < 2 ^ 32) :
    (result.entries .functions).Splits .index Leb128.index
      ((Push.functionsOf pushes).map fun f =>
        (Instr.encodeIndex (typeCount + f.signature.offset), typeCount + f.signature.offset)) := by
  rw [h.entries_functions]
  exact Entries.splits_ofList EntryFormat.delimited_index
    (fun f => EntryFormat.index_encode _) (fun f _ => Instr.reads_encodeIndex _) hlength

theorem splits_code (hlength : (Push.functionsOf pushes).length < 2 ^ 32) :
    (result.entries .code).Splits .sized Outline.readOpaqueBody
      ((Push.functionsOf pushes).map fun f => (Instr.encodeBody f.code, f.body)) := by
  rw [h.entries_code]
  refine Entries.splits_ofList EntryFormat.delimited_sized
    (fun f => EntryFormat.sized_encode f.body) (fun f hshort => f.reads_opaqueBody ?_) hlength
  rw [f.encodeBody_eq, List.length_append] at hshort
  omega

theorem splits_types (hlength : (pushes.flatMap Push.newSignatures).length < 2 ^ 32) :
    (result.entries .types).Splits .group SubType.readGroup
      ((pushes.flatMap Push.newSignatures).map fun s =>
        (s.encode, [⟨[], false, .func s.type⟩])) := by
  rw [h.entries_types]
  exact Entries.splits_ofList EntryFormat.delimited_group EntryFormat.group_encode
    (fun s _ => s.reads_encode) hlength

theorem splits_exports (hlength : pushes.countP Push.exports < 2 ^ 32) :
    (result.entries .exports).Splits .record ExportEntry.read
      (result.exports.toList.map fun e => (e.encode, e.entry)) := by
  have hrecords : result.exports.toList.length < 2 ^ 32 := by
    rwa [h.exports_eq, Push.length_recordsOf]
  exact Entries.splits_ofList EntryFormat.delimited_record EntryFormat.record_encode
    (fun e hshort => e.reads_entry (Nat.lt_of_le_of_lt e.utf8ByteSize_le_length_encode hshort))
    hrecords

/-- A function by its place among the functions, and its export by its place among the exports. -/
theorem place_of_function {before after : List Push} {f : AccessorFunction}
    (hpushes : pushes = before ++ .function f :: after) :
    (Push.functionsOf pushes)[(Push.functionsOf before).length]? = some f ∧
    (typeCount + f.signature.offset).toNat = typeCount.toNat + f.signature.offset.toNat ∧
    ∃ index : UInt32, index.toNat = functionCount.toNat + (Push.functionsOf before).length ∧
      result.exports.toList[before.countP Push.exports]? =
        some ⟨f.accessor.exportName symbol, .func, index⟩ := by
  have hget := Push.getElem?_functionsOf before f after
  rw [← hpushes] at hget
  have hplace := (List.getElem?_eq_some_iff.1 hget).1
  have hindices := h.indices_lt
  have htype := h.types_lt f (List.mem_of_getElem? hget)
  simp only [empty] at hindices htype
  refine ⟨hget, ?_, functionCount + UInt32.ofNat (Push.functionsOf before).length, ?_, ?_⟩
  · rw [UInt32.toNat_add, Nat.mod_eq_of_lt htype]
  · rw [UInt32.toNat_add, UInt32.toNat_ofNat']
    omega
  · rw [h.exports_eq, hpushes, Push.getElem?_recordsOf]

theorem advanced (hsignatures : (pushes.flatMap Push.newSignatures).length < 2 ^ 32)
    (hexports : pushes.countP Push.exports < 2 ^ 32) :
    Advanced symbol typeCount functionCount pushes result := by
  have hlength := Nat.lt_of_le_of_lt (Push.length_functionsOf_le pushes) hexports
  have hfunctions := h.splits_functions hlength
  have hcode := h.splits_code hlength
  have hrecords := h.splits_exports hexports
  have hcount : (result.entries .functions).count.toNat = (Push.functionsOf pushes).length := by
    rw [hfunctions.count, List.length_map]
  refine {
    functions_count := hcount
    code_count := by rw [h.entries_code, h.entries_functions]; rfl
    exports_count := by
      rw [hrecords.count, List.length_map, h.exports_eq, Push.length_recordsOf]
    exports_size := by rw [hrecords.count, List.length_map, Array.length_toList]
    records := h.exports_eq
    nextFunction := by rw [hcount, h.toNat_nextFunction]
    types := h.splits_types hsignatures
    functions := hfunctions
    code := hcode
    exports := hrecords
    accessor := ?_ }
  intro before after f hpushes references hreferences bodies hbodies exported hexported
  obtain ⟨hget, htype, index, hindex, hrecord⟩ := h.place_of_function hpushes
  refine ⟨_, index, htype, hindex, ?_, ?_, ?_, ?_⟩
  · rw [hfunctions.unique _ hreferences, List.getElem?_map, hget]
    rfl
  · rw [hcode.unique _ hbodies, List.getElem?_map, hget]
    rfl
  · rw [← Array.getElem?_toList, hrecord]
  · rw [hrecords.unique _ hexported, List.getElem?_map, hrecord]
    rfl

end After

/-! ### The additions to a module -/

/-- What a module holds already and is exported: how it is reached, its kind and its index. -/
def items (selection : Selection) (outline : Outline) : List (Accessor × ExternKind × UInt32) :=
  (if selection.memory then outline.memory else none).toList.map (.memory, .memory, ·) ++
    (if selection.table then outline.table else none).toList.map (.table, .table, ·) ++
    (ownFunctions outline).map fun index => (.function index, .func, index)

/-- The pushes before any function. -/
def itemPushes (selection : Selection) (outline : Outline) : List Push :=
  .signatures (signaturesFor selection outline) ::
    (items selection outline).map fun (accessor, kind, index) => .item accessor kind index

theorem functionsOf_itemPushes (selection : Selection) (outline : Outline) :
    Push.functionsOf (itemPushes selection outline) = [] := by
  rw [itemPushes, Push.functionsOf_signatures, Push.functionsOf, List.filterMap_map]
  exact List.filterMap_eq_nil_iff.2 fun _ _ => rfl

theorem signatures_itemPushes (selection : Selection) (outline : Outline) :
    (itemPushes selection outline).flatMap Push.newSignatures = signaturesFor selection outline := by
  simp [itemPushes, Push.newSignatures, List.flatMap_map]

theorem recordsOf_itemPushes (selection : Selection) (symbol : String) (next : UInt32)
    (outline : Outline) : Push.recordsOf symbol next (itemPushes selection outline) =
      itemExports selection symbol outline := by
  have hitems (items : List (Accessor × ExternKind × UInt32)) :
      Push.recordsOf symbol next (items.map fun (accessor, kind, index) =>
        .item accessor kind index) = items.map fun (accessor, kind, index) =>
          ⟨accessor.exportName symbol, kind, index⟩ := by
    induction items with
    | nil => rfl
    | cons item items ih => rw [List.map_cons, Push.recordsOf, ih, List.map_cons]
  rw [itemPushes, Push.recordsOf, hitems]
  simp only [items, itemExports, List.map_append, List.map_map]
  rfl

theorem exists_foldlM_of_functionsOf_eq_nil (hnone : Push.functionsOf pushes = [])
    (start : Additions) : ∃ result, pushes.foldlM Push.apply start = .ok result := by
  induction pushes generalizing start with
  | nil => exact ⟨start, rfl⟩
  | cons push pushes ih =>
    cases push with
    | signatures added => exact ih hnone _
    | item accessor kind index => exact ih hnone _
    | function f => cases hnone

theorem foldlM_itemPushes (selection : Selection) (symbol : String) (outline : Outline) :
    (itemPushes selection outline).foldlM Push.apply
        (empty symbol outline.typeCount (firstFunction outline)) =
      .ok (ofItems selection symbol outline) := by
  obtain ⟨result, hresult⟩ := exists_foldlM_of_functionsOf_eq_nil
    (functionsOf_itemPushes selection outline)
    (empty symbol outline.typeCount (firstFunction outline))
  rw [hresult, (after_of_foldlM hresult).eq, functionsOf_itemPushes, signatures_itemPushes,
    recordsOf_itemPushes, ofItems_eq]
  simp [empty, firstFunction]

/-- The additions to a module are made by pushes. -/
theorem ofOutline_eq_foldlM (selection : Selection) (symbol : String) (outline : Outline) :
    ofOutline selection symbol outline =
      if outline.importedFunctions.toNat + outline.ownFunctions.toNat < UInt32.size then
        (itemPushes selection outline ++
          (accessorFunctions selection outline).map Push.function).foldlM Push.apply
            (empty symbol outline.typeCount (firstFunction outline))
      else .error (.tooManyEntries .functions) := by
  simp only [List.foldlM_append, foldlM_itemPushes, List.foldlM_map]
  rfl

theorem advanced_of_ofOutline {selection : Selection} {outline : Outline}
    (h : ofOutline selection symbol outline = .ok result) (hexports : result.exports.size < 2 ^ 32) :
    Advanced symbol outline.typeCount (firstFunction outline)
      (itemPushes selection outline ++ (accessorFunctions selection outline).map .function)
      result := by
  rw [ofOutline_eq_foldlM] at h
  split at h
  · have hafter := after_of_foldlM h
    refine hafter.advanced ?_ ?_
    · rw [List.flatMap_append, signatures_itemPushes, Push.flatMap_newSignatures_map_function,
        List.append_nil, signaturesFor]
      split <;> decide
    · rwa [← Push.length_recordsOf symbol (firstFunction outline), ← hafter.exports_eq,
        Array.length_toList]
  · cases h

end Additions

/-- Pushes in any order advance all tracks together. -/
theorem tracks_advance_together {symbol : String} {typeCount functionCount : UInt32}
    {pushes : List Push} {result : Additions}
    (h : pushes.foldlM Push.apply (Additions.empty symbol typeCount functionCount) = .ok result)
    (hsignatures : (pushes.flatMap Push.newSignatures).length < 2 ^ 32)
    (hexports : pushes.countP Push.exports < 2 ^ 32) :
    Additions.Advanced symbol typeCount functionCount pushes result ∧
    ∀ (additions : Additions) (f : AccessorFunction),
      (∀ next, additions.placeFunction f = (.ok (), next) ↔ additions.addFunction f = .ok next) ∧
      ∀ e left, additions.placeFunction f = (.error e, left) →
        additions.addFunction f = .error e ∧ left.exports = additions.exports ∧
        ∀ kind, left.entries kind = additions.entries kind := by
  refine ⟨(Additions.after_of_foldlM h).advanced hsignatures hexports, fun additions f =>
    ⟨fun next => Additions.placeFunction_ok_iff, fun e left hplace => ?_⟩⟩
  obtain ⟨hadd, hleft⟩ := Additions.placeFunction_eq_error hplace
  rw [hleft]
  exact ⟨hadd, rfl, fun kind => by cases kind <;> rfl⟩

/-- The functions of two globals, with exports of other items before and between them. -/
def interleavedPushes : List Push :=
  [.signatures Signature.inOrder, .item .memory .memory 0] ++
    (IntType.i32.accessorFunctions 0).map .function ++ [.item .table .table 0] ++
    (IntType.i64.accessorFunctions 1).map .function

theorem tracks_advance_together_interleaved : ∃ result,
    interleavedPushes.foldlM Push.apply (Additions.empty "_" 4 10) = .ok result ∧
    Additions.Advanced "_" 4 10 interleavedPushes result ∧
    (result.entries .functions).bytes = [6, 4, 6, 6, 5] ∧
    result.exports.toList.map (fun e => (e.name, e.index)) =
      [("_memory", 0), ("_global_getter_i32_0", 10), ("_global_setter_i32_0", 11), ("_table", 0),
        ("_global_getter_i64_1_high", 12), ("_global_getter_i64_1_low", 13),
        ("_global_setter_i64_1", 14)] := by
  refine ⟨_, rfl, ?_, ?_, ?_⟩
  · exact (tracks_advance_together rfl (by decide) (by decide)).1
  · decide +kernel
  · decide +kernel

end WasmSnapshot
