import WasmSnapshot.Proofs.Accessor.Resolved
import WasmSnapshot.Proofs.Snapshot.Capture

/-! Names with leading zeros. An accessor with an index has a name for every number of zeros before
the index, and all of them are read as that accessor, while exports that are added to a module bear
the name without zeros. So a module whose own exports have such names can have several exports for
one accessor, of which capturing and restoring do not pick the same. Of an accessor without such a
name both find the export that bears its name exactly. -/

namespace WasmSnapshot

namespace Accessor

/-- The label with the index written behind as many zeros. -/
def IndexedForm.paddedLabel (form : IndexedForm) (zeros : Nat) (index : UInt32) : String :=
  form.before ++ String.ofList (List.replicate zeros '0' ++ Decimal.digits index.toNat) ++
    form.after

/-- The label of an accessor with as many zeros before its index, if it has one. -/
def paddedLabel (zeros : Nat) : Accessor → String
  | memory => "memory"
  | table => "table"
  | function index => functionForm.paddedLabel zeros index
  | i32Getter global => i32GetterForm.paddedLabel zeros global
  | i32Setter global => i32SetterForm.paddedLabel zeros global
  | i64GetterHigh global => i64GetterHighForm.paddedLabel zeros global
  | i64GetterLow global => i64GetterLowForm.paddedLabel zeros global
  | i64Setter global => i64SetterForm.paddedLabel zeros global

/-- The name of an accessor with as many zeros before its index, if it has one. -/
def paddedName (symbol : String) (zeros : Nat) (accessor : Accessor) : String :=
  symbol ++ accessor.paddedLabel zeros

/-- Whether the name of an accessor has an index in it. -/
def indexed : Accessor → Bool
  | memory | table => false
  | function _ | i32Getter _ | i32Setter _ | i64GetterHigh _ | i64GetterLow _ | i64Setter _ => true

/-- Without zeros, the name is the one that is given to exports. -/
theorem paddedName_zero (symbol : String) (accessor : Accessor) :
    accessor.paddedName symbol 0 = accessor.exportName symbol := by
  cases accessor <;> rfl

theorem paddedName_of_not_indexed {accessor : Accessor} (h : accessor.indexed = false)
    (symbol : String) (zeros : Nat) :
    accessor.paddedName symbol zeros = accessor.exportName symbol := by
  cases accessor with
  | memory | table => rfl
  | function | i32Getter | i32Setter | i64GetterHigh | i64GetterLow | i64Setter => cases h

theorem IndexedForm.length_paddedLabel (form : IndexedForm) (zeros : Nat) (index : UInt32) :
    (form.paddedLabel zeros index).length = zeros + (form.label index).length := by
  simp only [paddedLabel, label, String.length_append, String.length_ofList, List.length_append,
    List.length_replicate]
  omega

/-- Each zero makes the name longer by one. -/
theorem length_paddedName {accessor : Accessor} (h : accessor.indexed = true) (symbol : String)
    (zeros : Nat) :
    (accessor.paddedName symbol zeros).length = zeros + (accessor.exportName symbol).length := by
  have hlabel : (accessor.paddedLabel zeros).length = zeros + accessor.label.length := by
    cases accessor with
    | memory | table => cases h
    | _ => exact IndexedForm.length_paddedLabel ..
  rw [paddedName, exportName, String.length_append, String.length_append, hlabel]
  omega

theorem paddedName_inj {accessor : Accessor} {symbol : String} {zeros more : Nat} :
    accessor.paddedName symbol zeros = accessor.paddedName symbol more ↔
      (accessor.indexed = true → zeros = more) := by
  constructor
  · intro heq hindexed
    have hlength := congrArg String.length heq
    rw [length_paddedName hindexed, length_paddedName hindexed] at hlength
    omega
  · intro h
    cases hindexed : accessor.indexed with
    | false => rw [paddedName_of_not_indexed hindexed, paddedName_of_not_indexed hindexed]
    | true => rw [h hindexed]

theorem spells_iff_padded {label : String} {accessor : Accessor} :
    Spells label accessor ↔ ∃ zeros, label = accessor.paddedLabel zeros := by
  have hdigits {digits : String} {index : UInt32}
      (h : Decimal.Numeral digits.toList index.toNat) : ∃ zeros, digits =
        String.ofList (List.replicate zeros '0' ++ Decimal.digits index.toNat) := by
    obtain ⟨zeros, heq⟩ := Decimal.numeral_iff_zeros.1 h
    exact ⟨zeros, by rw [← heq, String.ofList_toList]⟩
  have hform (form : IndexedForm) (hmem : form ∈ indexedForms) (zeros : Nat) (index : UInt32) :
      Spells (form.paddedLabel zeros index) (form.accessor index) := by
    refine spells_of_form form hmem ?_
    rw [String.toList_ofList]
    exact Decimal.numeral_iff_zeros.2 ⟨zeros, rfl⟩
  constructor
  · intro h
    cases h with
    | memory | table => exact ⟨0, rfl⟩
    | function h | i32Getter h | i32Setter h | i64Setter h =>
      obtain ⟨zeros, rfl⟩ := hdigits h
      exact ⟨zeros, String.append_empty.symm⟩
    | i64GetterHigh h | i64GetterLow h =>
      obtain ⟨zeros, rfl⟩ := hdigits h
      exact ⟨zeros, rfl⟩
  · rintro ⟨zeros, rfl⟩
    cases accessor with
    | memory => exact .memory
    | table => exact .table
    | function index => exact hform functionForm (by simp [indexedForms]) zeros index
    | i32Getter index => exact hform i32GetterForm (by simp [indexedForms]) zeros index
    | i32Setter index => exact hform i32SetterForm (by simp [indexedForms]) zeros index
    | i64GetterHigh index => exact hform i64GetterHighForm (by simp [indexedForms]) zeros index
    | i64GetterLow index => exact hform i64GetterLowForm (by simp [indexedForms]) zeros index
    | i64Setter index => exact hform i64SetterForm (by simp [indexedForms]) zeros index

/-- The names that are read as an accessor. -/
theorem ofExportName?_eq_some_iff_padded {symbol name : String} {accessor : Accessor} :
    ofExportName? symbol name = some accessor ↔ ∃ zeros, name = accessor.paddedName symbol zeros := by
  simp only [ofExportName?_eq_some_iff, spells_iff_padded, paddedName]
  constructor
  · rintro ⟨_, rfl, zeros, rfl⟩
    exact ⟨zeros, rfl⟩
  · rintro ⟨zeros, rfl⟩
    exact ⟨_, rfl, zeros, rfl⟩

end Accessor

/-! ### Exports by name -/

/-- Of distinct names one is found at most once. -/
theorem List.filterMap_name_eq_lookup {α β : Type} {entries : List (String × α)}
    (hdistinct : (entries.map (·.1)).Nodup) (name : String) (f : α → Option β) :
    entries.filterMap (fun entry => if entry.1 = name then f entry.2 else none) =
      ((entries.lookup name).bind f).toList := by
  induction entries with
  | nil => rfl
  | cons entry entries ih =>
    obtain ⟨other, value⟩ := entry
    obtain ⟨habsent, hdistinct⟩ := List.nodup_cons.1 hdistinct
    by_cases heq : other = name
    · subst heq
      have hnil : entries.filterMap (fun entry => if entry.1 = other then f entry.2 else none) =
          [] := by
        refine List.filterMap_eq_nil_iff.2 fun entry hmem => if_neg fun h => habsent ?_
        exact List.mem_map.2 ⟨entry, hmem, h⟩
      rw [List.lookup_cons_self, Option.bind_some, List.filterMap_cons, hnil, if_pos rfl]
      cases f value <;> rfl
    · rw [List.lookup_cons, beq_false_of_ne (Ne.symm heq), List.filterMap_cons, if_neg heq]
      exact ih hdistinct

theorem List.lookup_of_nodup {α : Type} {entries : List (String × α)} {name : String} {value : α}
    (hdistinct : (entries.map (·.1)).Nodup) (hmem : (name, value) ∈ entries) :
    entries.lookup name = some value :=
  List.lookup_eq_some_of_unique hmem fun _ hother =>
    congrArg Prod.snd (List.inj_on_of_nodup_map hdistinct hother hmem rfl)

theorem AccessorExports.candidates_eq_filterMap {symbol : String} (exports : List (String × Extern))
    (accessor : Accessor) : candidates (exports.filterMap (recognize? symbol)) accessor =
      exports.filterMap fun entry =>
        if Accessor.ofExportName? symbol entry.1 = some accessor then accessor.target? entry.2
        else none := by
  rw [candidates, List.filterMap_filterMap]
  congr 1
  funext entry
  rw [recognize?]
  cases Accessor.ofExportName? symbol entry.1 with
  | none => rfl
  | some other =>
    by_cases heq : other = accessor
    · subst heq
      cases htarget : other.target? entry.2 <;> simp [htarget]
    · cases htarget : other.target? entry.2 <;> simp [htarget, heq]

/-- The one export that an accessor can have if it has no other name among them. -/
theorem AccessorExports.candidates_of_exact {symbol : String} {exports : List (String × Extern)}
    {accessor : Accessor} (hdistinct : (exports.map (·.1)).Nodup)
    (hexact : ∀ name ∈ exports.map (·.1), Accessor.ofExportName? symbol name = some accessor →
      name = accessor.exportName symbol) :
    candidates (exports.filterMap (recognize? symbol)) accessor =
      ((exports.lookup (accessor.exportName symbol)).bind accessor.target?).toList := by
  rw [candidates_eq_filterMap, ← List.filterMap_name_eq_lookup hdistinct]
  refine List.filterMap_congr fun entry hmem => if_congr ?_ rfl rfl
  constructor
  · exact hexact entry.1 (List.mem_map_of_mem hmem)
  · intro hname
    rw [hname, Accessor.ofExportName?_exportName]

namespace Instance

variable {symbol : String} {inst : Instance}

/-- No export is read as the accessor that has zeros before the index in its name. -/
def Unpadded (symbol : String) (inst : Instance) (accessor : Accessor) : Prop :=
  ∀ name ∈ inst.exports.map (·.1), Accessor.ofExportName? symbol name = some accessor →
    name = accessor.exportName symbol

theorem unpadded_of_not_indexed {accessor : Accessor} (h : accessor.indexed = false) :
    inst.Unpadded symbol accessor := by
  intro name _ hname
  obtain ⟨zeros, rfl⟩ := Accessor.ofExportName?_eq_some_iff_padded.1 hname
  exact Accessor.paddedName_of_not_indexed h symbol zeros

theorem Unpadded.candidates_eq {accessor : Accessor} (h : inst.Unpadded symbol accessor)
    (hdistinct : (inst.exports.map (·.1)).Nodup) : inst.candidates symbol accessor =
      ((inst.export? (accessor.exportName symbol)).bind accessor.target?).toList :=
  AccessorExports.candidates_of_exact hdistinct h

theorem Unpadded.resolve?_eq {accessor : Accessor} (h : inst.Unpadded symbol accessor)
    (hdistinct : (inst.exports.map (·.1)).Nodup) :
    (AccessorExports.ofInstance symbol inst).resolve? accessor =
      (inst.export? (accessor.exportName symbol)).bind accessor.target? := by
  rw [resolve?_ofInstance, h.candidates_eq hdistinct]
  cases (inst.export? (accessor.exportName symbol)).bind accessor.target? <;> simp

end Instance

/-! ### Exports that were added -/

section Added

variable {selection : Selection} {symbol : String} {bytes : Bytes} {sections : List Section}
  {outline : Outline} {scope : Scope} {original m : Declarations} {out : Instrumented}
  {inst : Instance}
  {store : Store}

/-- An export that was added bears the name of an accessor, and its item is of the right kind. -/
theorem Additions.exists_of_mem_resolved {entry : String × Extern}
    (h : entry ∈ (itemExports selection symbol outline ++ functionExports symbol
      (firstFunction outline) (accessorFunctions selection outline)).filterMap (resolved scope)) :
    ∃ (accessor : Accessor) (address : Address), entry.1 = accessor.exportName symbol ∧
      accessor.target? entry.2 = some address := by
  rw [List.filterMap_append, filterMap_itemExports, filterMap_functionExports] at h
  simp only [List.mem_append, List.mem_map] at h
  rcases h with ((⟨address, -, rfl⟩ | ⟨address, -, rfl⟩) | ⟨own, -, rfl⟩) | ⟨own, hown, rfl⟩
  · exact ⟨.memory, address, rfl, rfl⟩
  · exact ⟨.table, address, rfl, rfl⟩
  · exact ⟨.function own.1, own.2, rfl, rfl⟩
  · obtain ⟨position, function, hget, haccessor, -⟩ := mem_accessorAddresses.1 hown
    obtain ⟨index, type, -, hfunction⟩ := mem_accessorFunctions.1 (List.mem_of_getElem? hget)
    have hglobal := IntType.global?_of_mem hfunction
    refine ⟨own.1, own.2, rfl, ?_⟩
    rw [← haccessor]
    cases hfound : function.accessor with
    | memory | table | function => rw [hfound] at hglobal; cases hglobal
    | i32Getter | i32Setter | i64GetterHigh | i64GetterLow | i64Setter => rfl

/-- An export that was added is one of a memory, a table or a function. -/
theorem Additions.kind_ne_tag {first : UInt32} {functions : List AccessorFunction} {e : Export}
    (h : e ∈ itemExports selection symbol outline ++ functionExports symbol first functions) :
    e.kind ≠ .tag := by
  rcases List.mem_append.1 h with h | h
  · simp only [itemExports, List.mem_append, List.mem_map] at h
    rcases h with (⟨index, -, rfl⟩ | ⟨index, -, rfl⟩) | ⟨index, -, rfl⟩ <;> rintro ⟨⟩
  · obtain ⟨position, function, -, rfl⟩ := mem_functionExports.1 h
    rintro ⟨⟩

/-- What an accessor is looked up as in an instance of an instrumented module. The export that was
added for it comes last, behind those of the module itself that are read as the same accessor. -/
theorem Instance.candidates_of_added (hdistinct : (inst.exports.map (·.1)).Nodup)
    (hframed : Section.Framed bytes sections)
    (hdecoded : Declarations.ofSections? sections = some original)
    (hout : instrument selection symbol bytes = .ok out)
    (hm : Declarations.ofBytes? out.bytes = some m) (hof : inst.Of m store)
    {e : Export} (he : e ∈ out.exports) :
    ∃ (accessor : Accessor) (item : Extern) (address : Address) (own : List Address),
      e.name = accessor.exportName symbol ∧ Instance.externOf? inst.scope e = some item ∧
      inst.export? e.name = some item ∧ accessor.target? item = some address ∧
      inst.candidates symbol accessor = own ++ [address] ∧
      ((∀ other ∈ original.exports, Accessor.ofExportName? symbol other.name ≠ some accessor) →
        own = []) := by
  obtain ⟨outline, additions, spliced, hmade⟩ :=
    made_of_instrument hframed.read hframed.ordered hout
  rw [Declarations.ofBytes?_of_readModule hmade.read] at hm
  have hexports := hmade.exports_eq hframed hdecoded hm
  rw [hmade.exports] at he
  rw [hmade.listed.exports] at he hexports
  -- The exports of the instance, those of the module itself before those that were added.
  have hsplit := hof.exports
  rw [hexports, List.filterMap_append] at hsplit
  obtain ⟨item, hitem⟩ : ∃ item, Instance.externOf? inst.scope e = some item :=
    Option.isSome_iff_exists.1 <| (hof.exports_found e
      (hexports ▸ List.mem_append_right _ he)).resolve_left (Additions.kind_ne_tag he)
  have hadded : (e.name, item) ∈ (Additions.itemExports selection symbol outline ++
      Additions.functionExports symbol (Additions.firstFunction outline)
        (Additions.accessorFunctions selection outline)).filterMap
          (Additions.resolved inst.scope) :=
    List.mem_filterMap.2 ⟨e, he, Option.map_eq_some_iff.2 ⟨item, hitem, rfl⟩⟩
  have hmem : (e.name, item) ∈ inst.exports := by
    rw [hsplit]
    exact List.mem_append_right _ hadded
  obtain ⟨accessor, address, hname, htarget⟩ := Additions.exists_of_mem_resolved hadded
  refine ⟨accessor, item, address, AccessorExports.candidates
      ((original.exports.filterMap (Additions.resolved inst.scope)).filterMap
        (AccessorExports.recognize? symbol)) accessor, hname, hitem,
    List.lookup_of_nodup hdistinct hmem, htarget, ?_, fun hnone => ?_⟩
  · rw [Instance.candidates, Instance.accessors, hsplit, List.filterMap_append,
      AccessorExports.candidates_append]
    congr 1
    rw [hsplit, List.map_append] at hdistinct
    have hadded' : _ = some item := List.lookup_of_nodup hdistinct.of_append_right hadded
    rw [AccessorExports.candidates_of_exact hdistinct.of_append_right, ← hname, hadded',
      Option.bind_some, htarget]
    · rfl
    · intro name hmem hread
      obtain ⟨entry, hentry, rfl⟩ := List.mem_map.1 hmem
      obtain ⟨other, -, hother, -⟩ := Additions.exists_of_mem_resolved hentry
      rw [hother, Accessor.ofExportName?_exportName] at hread
      rw [hother, Option.some.inj hread]
  · refine List.eq_nil_iff_forall_not_mem.2 fun other hother => ?_
    obtain ⟨entry, hentry, hread⟩ :=
      List.mem_filterMap.1 (AccessorExports.mem_candidates.1 hother)
    obtain ⟨e', he', hresolved⟩ := List.mem_filterMap.1 hentry
    obtain ⟨item', -, rfl⟩ := Option.map_eq_some_iff.1 hresolved
    exact hnone e' he' (AccessorExports.recognize?_eq_some_iff.1 hread).1

end Added

/-- The names that are read as an accessor are its own and those with zeros before the index. In an
instance, whose exports have distinct names, an accessor is restored through the first export that is
read as it, if it is one of a global, and through the last otherwise, while capturing calls every
getter in turn. An accessor that no export names with zeros has at most one, which bears its own name,
and both find that one. In an instance of an instrumented module, the export that was added for an
accessor is the last one, and the only one if no export of the module itself is read as the same. -/
theorem exports_of_accessor {symbol : String} {inst : Instance}
    (hdistinct : (inst.exports.map (·.1)).Nodup) :
    (∀ (accessor : Accessor) (name : String), Accessor.ofExportName? symbol name = some accessor ↔
      ∃ zeros, name = accessor.paddedName symbol zeros) ∧
    (∀ accessor : Accessor, accessor.paddedName symbol 0 = accessor.exportName symbol) ∧
    (∀ (accessor : Accessor) (zeros more : Nat),
      accessor.paddedName symbol zeros = accessor.paddedName symbol more ↔
        (accessor.indexed = true → zeros = more)) ∧
    (∀ accessor : Accessor, (AccessorExports.ofInstance symbol inst).resolve? accessor =
      if accessor.global?.isSome then (inst.candidates symbol accessor).head?
      else (inst.candidates symbol accessor).getLast?) ∧
    (∀ accessor : Accessor, accessor.global?.isSome = true →
      AccessorExports.candidates (AccessorExports.ofInstance symbol inst).globals accessor =
        inst.candidates symbol accessor) ∧
    (∀ accessor : Accessor, accessor.indexed = false ∨ inst.Unpadded symbol accessor →
      inst.candidates symbol accessor =
        ((inst.export? (accessor.exportName symbol)).bind accessor.target?).toList ∧
      (AccessorExports.ofInstance symbol inst).resolve? accessor =
        (inst.export? (accessor.exportName symbol)).bind accessor.target?) ∧
    ∀ (selection : Selection) (bytes : Bytes) (sections : List Section)
      (original m : Declarations) (out : Instrumented) (store : Store),
      Section.Framed bytes sections → Declarations.ofSections? sections = some original →
      instrument selection symbol bytes = .ok out → Declarations.ofBytes? out.bytes = some m →
      inst.Of m store → ∀ e ∈ out.exports,
      ∃ (accessor : Accessor) (item : Extern) (address : Address) (own : List Address),
        e.name = accessor.exportName symbol ∧ Instance.externOf? inst.scope e = some item ∧
        inst.export? e.name = some item ∧ accessor.target? item = some address ∧
        inst.candidates symbol accessor = own ++ [address] ∧
        ((∀ other ∈ original.exports, Accessor.ofExportName? symbol other.name ≠ some accessor) →
          own = []) := by
  refine ⟨fun _ _ => Accessor.ofExportName?_eq_some_iff_padded, Accessor.paddedName_zero symbol,
    fun _ _ _ => Accessor.paddedName_inj, Instance.resolve?_ofInstance, ?_, ?_, ?_⟩
  · intro accessor hglobal
    rw [Instance.globals_ofInstance, AccessorExports.candidates_filter_global hglobal]
    rfl
  · intro accessor hname
    have hunpadded : inst.Unpadded symbol accessor := hname.elim Instance.unpadded_of_not_indexed id
    exact ⟨hunpadded.candidates_eq hdistinct, hunpadded.resolve?_eq hdistinct⟩
  · intro selection bytes sections original m out store hframed hdecoded hout hm hof e he
    exact Instance.candidates_of_added hdistinct hframed hdecoded hout hm hof he

/-- A module that exports a function of its own under a name that is read as that of a setter. -/
def paddedSections : List Section := [
  ⟨1, [1, 0x60, 1, 0x7f, 0]⟩,
  ⟨3, [1, 0]⟩,
  ⟨6, [1, 0x7f, 1, 0x41, 5, 0x0b]⟩,
  ⟨7, 1 :: (21 : UInt8) :: "_global_setter_i32_00".toUTF8.data.toList ++ [0, 0]⟩,
  ⟨10, [1, 2, 0, 0x0b]⟩]

/-- An instance of the module with its accessors, in a store of its own. -/
def paddedInstance? : Option (Instrumented × Module × Instance × Store) := do
  let out ← (instrument .all "_" (Section.encodeModule paddedSections)).toOption
  let m ← Module.compile? out.bytes
  match Store.run {} (Instance.ofModule m fun _ _ => none) with
  | (.ok inst, made) => pure (out, m, inst, made)
  | (.error _, _) => none

theorem framed_padded :
    Section.Framed (Section.encodeModule paddedSections) paddedSections where
  read := Section.readModule_encodeModule (by decide +kernel)
  length_lt := by decide +kernel
  ordered := by unfold Section.Ordered; decide +kernel

/-- What the module declares. -/
def paddedDeclarations : Declarations where
  types := [.func ⟨[.i32], []⟩]
  imports := []
  functions := [0]
  globals := [⟨⟨.i32, true⟩, [0x41, 5, 0x0b]⟩]
  bodies := [[0, 0x0b]]
  tables := []
  memories := 0
  exports := [⟨"_global_setter_i32_00", .func, 0⟩]

theorem of_padded {out : Instrumented} {m : Module} {inst : Instance} {made : Store}
    (h : paddedInstance? = some (out, m, inst, made)) :
    instrument .all "_" (Section.encodeModule paddedSections) = .ok out ∧
    ∃ declared, Declarations.ofBytes? out.bytes = some declared ∧ inst.Of declared made := by
  simp only [paddedInstance?, Option.bind_eq_bind, Option.bind_eq_some_iff] at h
  obtain ⟨out', hout, m', hcompiled, h⟩ := h
  obtain ⟨declared, hdeclared, hdeclares, hconsistent⟩ := Module.declares_of_compile? hcompiled
  split at h
  · next inst' made' hmade =>
    cases h
    refine ⟨?_, declared, hdeclared, (Instance.built_of_ofModule hmade).of hdeclares hconsistent⟩
    cases hresult : instrument .all "_" (Section.encodeModule paddedSections) with
    | error e => rw [hresult] at hout; cases hout
    | ok other => rw [hresult] at hout; cases hout; rfl
  · cases h

/-- Restoring calls a function of the module itself, and not the setter that was added, which is the
other candidate. -/
theorem exports_of_accessor_padded : ∃ (declared : Declarations) (out : Instrumented)
    (inst : Instance) (made : Store) (own added : Address),
    Section.Framed (Section.encodeModule paddedSections) paddedSections ∧
    Declarations.ofSections? paddedSections = some paddedDeclarations ∧
    instrument .all "_" (Section.encodeModule paddedSections) = .ok out ∧
    Declarations.ofBytes? out.bytes = some declared ∧ inst.Of declared made ∧
    (inst.exports.map (·.1)).Nodup ∧ own ≠ added ∧
    (AccessorExports.ofInstance "_" inst).resolve? (.i32Setter 0) = some own ∧
    inst.export? ((Accessor.i32Setter 0).exportName "_") = some (.function added) ∧
    inst.candidates "_" (.i32Setter 0) = [own, added] := by
  have hsome : paddedInstance?.any (fun found =>
      decide ((found.2.2.1.exports.map (·.1)).Nodup ∧
        found.2.2.1.candidates "_" (.i32Setter 0) = [0, 2]) &&
      found.1.exports.any (·.name = (Accessor.i32Setter 0).exportName "_")) = true := by
    decide +kernel
  obtain ⟨⟨out, m, inst, made⟩, hfound, hchecked⟩ := (Option.any_eq_true _ _).1 hsome
  obtain ⟨hout, declared, hdeclared, hof⟩ := of_padded hfound
  rw [Bool.and_eq_true, decide_eq_true_eq, List.any_eq_true] at hchecked
  obtain ⟨⟨hdistinct, hcandidates⟩, e, he, hname⟩ := hchecked
  rw [decide_eq_true_eq] at hname
  have hdecoded : Declarations.ofSections? paddedSections = some paddedDeclarations := by
    decide +kernel
  obtain ⟨-, -, -, hresolve, -, -, hadded⟩ := @exports_of_accessor "_" inst hdistinct
  obtain ⟨accessor, item, address, own, haccessor, -, hexport, htarget, hlast, -⟩ :=
    hadded .all _ paddedSections paddedDeclarations declared out made framed_padded hdecoded hout
      hdeclared hof e he
  rw [hname] at haccessor hexport
  obtain rfl := Accessor.exportName_injective haccessor
  rw [hcandidates] at hlast
  have haddress : address = 2 := by
    have hends := congrArg List.getLast? hlast
    rw [List.getLast?_append] at hends
    simpa using hends.symm
  subst haddress
  refine ⟨declared, out, inst, made, 0, 2, framed_padded, hdecoded, hout, hdeclared, hof, hdistinct,
    by decide, ?_, ?_, hcandidates⟩
  · rw [hresolve, hcandidates]
    rfl
  · rw [hexport]
    cases item with
    | function found => cases htarget; rfl
    | table | memory | global => cases htarget

/-- The names of exports do not tell accessors apart: these two are read as the same one. -/
theorem names_not_injective : ¬∀ (symbol name other : String) (accessor : Accessor),
    Accessor.ofExportName? symbol name = some accessor →
    Accessor.ofExportName? symbol other = some accessor →
    name = other ∧ name = accessor.exportName symbol := by
  intro h
  have hsame := h "_" "_func_7" "_func_007" (.function 7) (by decide +kernel) (by decide +kernel)
  exact absurd hsame.1 (by decide)

end WasmSnapshot
