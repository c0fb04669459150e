import WasmSnapshot.Accessor.Basic
import WasmSnapshot.Accessor.IndexMap
import WasmSnapshot.Host.Instance

/-! The accessors of an instance, found by the names of its exports. -/

namespace WasmSnapshot

/-- The exports of an instance that are accessors under a symbol. -/
structure AccessorExports where
  memory : Option Address := none
  table : Option Address := none
  /-- The functions of the module by index. -/
  functions : IndexMap Address := .empty
  /-- The functions that read and write globals, in the order of the exports. -/
  globals : List (Accessor × Address) := []
  deriving DecidableEq, Repr

namespace AccessorExports

/-- Takes in an export. Of several memories or tables, or functions with one index, the last one
stays. An accessor that is not of the kind that its name announces is passed over. -/
def add (symbol : String) (exports : AccessorExports) (entry : String × Extern) :
    AccessorExports :=
  match Accessor.ofExportName? symbol entry.1, entry.2 with
  | some .memory, .memory address => { exports with memory := some address }
  | some .table, .table address => { exports with table := some address }
  | some (.function index), .function address =>
    { exports with functions := exports.functions.insert index address }
  | some accessor, .function address =>
    if accessor.global?.isSome then
      { exports with globals := exports.globals ++ [(accessor, address)] }
    else exports
  | _, _ => exports

/-- The accessors of an instance under `symbol`. -/
def ofInstance (symbol : String) (inst : Instance) : AccessorExports :=
  inst.exports.foldl (add symbol) {}

/-- The function that serves as the given accessor: the first one of that name. -/
def accessor? (exports : AccessorExports) (accessor : Accessor) : Option Address :=
  exports.globals.lookup accessor

/-- The index of a function of the module, by its address. A function that is exported under
several indices goes by the largest of them. -/
def indexOf? (exports : AccessorExports) (address : Address) : Option UInt32 :=
  ((exports.functions.entries.filter (·.2 = address)).getLast?).map (·.1)

end AccessorExports

end WasmSnapshot
