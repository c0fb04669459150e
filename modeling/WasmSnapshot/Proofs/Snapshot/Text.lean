import WasmSnapshot.Proofs.Json.Reader
import WasmSnapshot.Snapshot.Text

/-! Snapshots and selections survive as text: what is written of them is read back as what it was,
whatever integers, holes and characters they hold. -/

namespace WasmSnapshot

namespace Json

theorem int?_ofInt (n : Int) : (ofInt n).int? = some n := integer?_ofInt n

/-- A natural number is written like the integer that it is. -/
theorem ofNat_eq_ofInt (n : Nat) : ofNat n = ofInt (Int.ofNat n) := by
  rw [ofNat, ofInt, Decimal.ofInt]

theorem uint32?_ofNat (word : UInt32) : (ofNat word.toNat).uint32? = some word := by
  have hint : (ofNat word.toNat).int? = some (word.toNat : Int) := by
    rw [ofNat_eq_ofInt, int?_ofInt]
    rfl
  have hrange : 0 ≤ (word.toNat : Int) ∧ (word.toNat : Int) < UInt32.size :=
    ⟨Int.natCast_nonneg _, Int.ofNat_lt.2 word.toNat_lt_size⟩
  rw [uint32?, hint, Option.bind_eq_bind, Option.bind_some, Option.bind_guard hrange,
    Int.toNat_natCast, UInt32.ofNat_toNat]
  rfl

theorem int32?_ofInt (value : Int32) : (ofInt value.toInt).int32? = some value := by
  have hrange : Int32.minValue.toInt ≤ value.toInt ∧ value.toInt ≤ Int32.maxValue.toInt :=
    ⟨value.minValue_le_toInt, value.toInt_le⟩
  rw [int32?, int?_ofInt, Option.bind_eq_bind, Option.bind_some, Option.bind_guard hrange,
    Int32.ofInt_toInt]
  rfl

theorem string?_ofString (s : String) : (ofString s).string? = some s := by
  rw [ofString, string?, Quoted.unescape?_escape]
  exact congrArg some String.ofList_toList

section Lists

variable {α : Type} {read : Json → Option α} {write : α → Json}

theorem array?_map (h : ∀ value, read (write value) = some value) (values : List α) :
    array? read (array (values.map write)) = some values := by
  rw [array?]
  induction values with
  | nil => rfl
  | cons value values ih => simp [h, ih]

theorem nullable?_holeOr (h : ∀ value, read (write value) = some value)
    (hne : ∀ value, write value ≠ null) (value : Option α) :
    nullable? read (Snapshot.holeOr write value) = some value := by
  cases value with
  | none => rfl
  | some value =>
    rw [Snapshot.holeOr, nullable?, h]
    · rfl
    · exact hne value

theorem written_map (h : ∀ value, Written (write value)) (values : List α) :
    Written (array (values.map write)) := by
  apply Written.array
  intro item hitem
  obtain ⟨value, -, rfl⟩ := List.mem_map.1 hitem
  exact h value

theorem written_holeOr (h : ∀ value, Written (write value)) (value : Option α) :
    Written (Snapshot.holeOr write value) := by
  cases value with
  | none => exact .null
  | some value => exact h value

end Lists

theorem written_ofFields {fields : List (String × Json)} (h : ∀ field ∈ fields, Written field.2) :
    Written (ofFields fields) := by
  apply Written.object
  · intro field hfield
    obtain ⟨⟨key, value⟩, -, rfl⟩ := List.mem_map.1 hfield
    exact ⟨key.toList, rfl⟩
  · intro field hfield
    obtain ⟨field, hmem, rfl⟩ := List.mem_map.1 hfield
    exact h field hmem

/-- The fields of an object are its fields again, by their names. -/
theorem record?_ofFields {known : List String} {fields : List (String × Json)}
    (honce : (known.all fun name => fields.countP (·.1 = name) ≤ 1) = true) :
    record? known (ofFields fields) = some fields := by
  have hnamed : (fields.map fun field => (Quoted.escape field.1.toList, field.2)).mapM
      (fun field => (Quoted.unescape? field.1).bind fun name => some (String.ofList name, field.2)) =
        some fields := by
    clear honce
    induction fields with
    | nil => rfl
    | cons field fields ih => simp [Quoted.unescape?_escape, ih]
  simp only [ofFields, record?, Option.bind_eq_bind, Option.pure_def, hnamed, Option.bind_some]
  exact Option.bind_guard honce _

section Fields

variable {α : Type} {record : List (String × Json)} {name other : String} {found : Json}
  {read : Json → Option α} {default : Option α}

@[simp] theorem field?_nil : field? [] name read default = default := rfl

@[simp] theorem field?_cons_self : field? ((name, found) :: record) name read default = read found := by
  rw [field?, List.lookup_cons_self]

@[simp] theorem field?_cons_ne (h : name ≠ other) :
    field? ((other, found) :: record) name read default = field? record name read default := by
  rw [field?, List.lookup_cons, beq_false_of_ne h, field?]

end Fields

end Json

namespace GlobalValue

theorem ofJson?_toJson (value : GlobalValue) : ofJson? value.toJson = some value := by
  cases value with
  | i32 value =>
    have hread := Json.int32?_ofInt value
    rw [toJson, ofJson?]
    · rw [hread]
      rfl
    · intro _ _ h
      cases h
  | i64 high low =>
    rw [toJson, ofJson?, Json.int32?_ofInt, Json.int32?_ofInt]
    rfl

theorem toJson_ne_null (value : GlobalValue) : value.toJson ≠ .null := by
  cases value <;> rintro ⟨⟩

theorem written_toJson (value : GlobalValue) : value.toJson.Written := by
  cases value with
  | i32 value => exact .int _
  | i64 high low =>
    apply Json.Written.array
    simp only [List.mem_cons, List.not_mem_nil, or_false]
    rintro item (rfl | rfl) <;> exact .int _

end GlobalValue

namespace Snapshot

theorem written_ofNat (n : Nat) : (Json.ofNat n).Written := by
  rw [Json.ofNat_eq_ofInt]
  exact .int _

theorem written_toJson (snapshot : Snapshot) : snapshot.toJson.Written := by
  have hmemory (memory : Array UInt32) :
      (Json.array (memory.toList.map fun word => .ofNat word.toNat)).Written :=
    Json.written_map (fun word : UInt32 => written_ofNat word.toNat) _
  have htable := Json.written_map
    (Json.written_holeOr fun index : UInt32 => written_ofNat index.toNat) snapshot.table
  have hglobals := Json.written_map
    (Json.written_holeOr GlobalValue.written_toJson) snapshot.globals
  have hsymbol : (Json.ofString snapshot.symbol).Written := .string _
  apply Json.written_ofFields
  cases snapshot.memory with
  | none => simp [htable, hglobals, hsymbol]
  | some memory => simp [hmemory, htable, hglobals, hsymbol]

theorem ofJson?_toJson (snapshot : Snapshot) : ofJson? snapshot.toJson = some snapshot := by
  have hmemory (memory : Array UInt32) := Json.array?_map Json.uint32?_ofNat memory.toList
  have htable := Json.array?_map
    (Json.nullable?_holeOr Json.uint32?_ofNat fun _ => by rintro ⟨⟩) snapshot.table
  have hglobals := Json.array?_map
    (Json.nullable?_holeOr GlobalValue.ofJson?_toJson GlobalValue.toJson_ne_null) snapshot.globals
  have hsymbol := Json.string?_ofString snapshot.symbol
  obtain ⟨memory, table, globals, symbol⟩ := snapshot
  cases memory with
  | none =>
    rw [toJson, ofJson?, Json.record?_ofFields]
    · simp [htable, hglobals, hsymbol]
    · simp [fieldNames]
  | some memory =>
    rw [toJson, ofJson?, Json.record?_ofFields]
    · simp [Json.nullable?, hmemory, htable, hglobals, hsymbol]
    · simp [fieldNames]

end Snapshot

namespace Selection

theorem written_toJson (selection : Selection) : selection.toJson.Written := by
  have hglobals := Json.written_map Json.Written.bool selection.globals
  apply Json.written_ofFields
  simp [hglobals, Json.Written.bool]

theorem ofJson?_toJson (selection : Selection) : ofJson? selection.toJson = some selection := by
  have hglobals := Json.array?_map (fun value => show (Json.bool value).bool? = some value from rfl)
    selection.globals
  rw [toJson, ofJson?, Json.record?_ofFields]
  · simp [Json.bool?, hglobals]
  · simp [fieldNames]

end Selection

/-- Snapshots and selections are read back from their text. -/
theorem text_read_back :
    (∀ snapshot : Snapshot, Snapshot.ofText? snapshot.toText = some snapshot) ∧
      ∀ selection : Selection, Selection.ofText? selection.toText = some selection := by
  constructor
  · intro snapshot
    rw [Snapshot.ofText?, Snapshot.toText, String.toList_ofList,
      snapshot.written_toJson.read?_text, Option.bind_eq_bind, Option.bind_some,
      Snapshot.ofJson?_toJson]
  · intro selection
    rw [Selection.ofText?, Selection.toText, String.toList_ofList,
      selection.written_toJson.read?_text, Option.bind_eq_bind, Option.bind_some,
      Selection.ofJson?_toJson]

end WasmSnapshot
