/-! Which parts of a module's state are given accessors. -/

namespace WasmSnapshot

/-- A choice of the parts of a module's state that get accessors. -/
structure Selection where
  /-- Whether the first memory of the module is exported. -/
  memory : Bool := true
  /-- Whether the first table of the module is exported. -/
  table : Bool := true
  /-- Whether the global at each index is exposed. Globals past the end of the list are. -/
  globals : List Bool := []
  deriving DecidableEq, Repr

namespace Selection

/-- Everything is selected. -/
def all : Selection := {}

instance : Inhabited Selection := ⟨all⟩

/-- Whether the global at `index` is to get accessors. -/
def selectsGlobal (selection : Selection) (index : UInt32) : Bool :=
  selection.globals.getD index.toNat true

end Selection

end WasmSnapshot
