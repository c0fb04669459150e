import WasmSnapshot.Text.Decimal

/-! Accessors: the exports through which the state of an instance is reached, and their names.

The name of an accessor is a symbol, chosen by the user, followed by a label. The label is `memory`
or `table`, or the index of a function or global between two fixed texts. -/

namespace WasmSnapshot

/-- What an accessor reaches. Indices are those of the module before it was instrumented, imports
included. -/
inductive Accessor where
  /-- The linear memory. -/
  | memory
  /-- The function table. -/
  | table
  /-- A function of the module, under its index. -/
  | function (index : UInt32)
  /-- Reads a global of type `i32`. -/
  | i32Getter (global : UInt32)
  /-- Writes a global of type `i32`. -/
  | i32Setter (global : UInt32)
  /-- Reads the upper half of a global of type `i64`. -/
  | i64GetterHigh (global : UInt32)
  /-- Reads the lower half of a global of type `i64`. -/
  | i64GetterLow (global : UInt32)
  /-- Writes a global of type `i64` from its two halves, the upper one first. -/
  | i64Setter (global : UInt32)
  deriving DecidableEq, Repr

namespace Accessor

/-- A form of label with an index in it: the texts around the index, and the accessor meant. -/
structure IndexedForm where
  before : String
  after : String
  accessor : UInt32 → Accessor

/-- The labels of functions. -/
def functionForm : IndexedForm := ⟨"func_", "", function⟩

/-- The labels of getters of `i32` globals. -/
def i32GetterForm : IndexedForm := ⟨"global_getter_i32_", "", i32Getter⟩

/-- The labels of setters of `i32` globals. -/
def i32SetterForm : IndexedForm := ⟨"global_setter_i32_", "", i32Setter⟩

/-- The labels of getters of the upper halves of `i64` globals. -/
def i64GetterHighForm : IndexedForm := ⟨"global_getter_i64_", "_high", i64GetterHigh⟩

/-- The labels of getters of the lower halves of `i64` globals. -/
def i64GetterLowForm : IndexedForm := ⟨"global_getter_i64_", "_low", i64GetterLow⟩

/-- The labels of setters of `i64` globals. -/
def i64SetterForm : IndexedForm := ⟨"global_setter_i64_", "", i64Setter⟩

/-- All forms of label with an index. No text is of two of them. -/
def indexedForms : List IndexedForm :=
  [functionForm, i32GetterForm, i32SetterForm, i64GetterHighForm, i64GetterLowForm, i64SetterForm]

/-- The label with the given index in it. -/
def IndexedForm.label (form : IndexedForm) (index : UInt32) : String :=
  form.before ++ String.ofList (Decimal.digits index.toNat) ++ form.after

/-- The name of an accessor under the empty symbol. -/
def label : Accessor → String
  | memory => "memory"
  | table => "table"
  | function index => functionForm.label index
  | i32Getter global => i32GetterForm.label global
  | i32Setter global => i32SetterForm.label global
  | i64GetterHigh global => i64GetterHighForm.label global
  | i64GetterLow global => i64GetterLowForm.label global
  | i64Setter global => i64SetterForm.label global

/-- The name under which an accessor is exported. -/
def exportName (symbol : String) (accessor : Accessor) : String := symbol ++ accessor.label

/-- An index in a label: digits, of a number of 32 bits. Leading zeros are allowed. -/
def index? (digits : List Char) : Option UInt32 :=
  match Decimal.read? digits with
  | some n => if n < UInt32.size then some (UInt32.ofNat n) else none
  | none => none

/-- What stands between the texts `before` and `after`, if `text` begins and ends with them. -/
def between? (before after text : List Char) : Option (List Char) := do
  let rest ← before.isPrefixOf? text
  after.isSuffixOf? rest

/-- The accessor that a label of the given form names. -/
def IndexedForm.read? (form : IndexedForm) (label : List Char) : Option Accessor := do
  let digits ← between? form.before.toList form.after.toList label
  form.accessor <$> index? digits

/-- The accessor that a label names. -/
def ofLabel? (label : List Char) : Option Accessor :=
  if label = "memory".toList then some memory
  else if label = "table".toList then some table
  else indexedForms.findSome? (·.read? label)

/-- The accessor that an export is, going by its name. Names that do not begin with the symbol, or
that have no label after it, are not those of accessors. -/
def ofExportName? (symbol name : String) : Option Accessor :=
  match symbol.toList.isPrefixOf? name.toList with
  | some label => ofLabel? label
  | none => none

/-- The global that an accessor reads or writes. -/
def global? : Accessor → Option UInt32
  | i32Getter global | i32Setter global | i64GetterHigh global | i64GetterLow global
  | i64Setter global => some global
  | memory | table | function _ => none

end Accessor

end WasmSnapshot
