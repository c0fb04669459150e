import WasmSnapshot.Host.Memory
import WasmSnapshot.Host.Value
import WasmSnapshot.Module.Instr

/-! The store: all functions, tables, memories and globals of the instances of a host, and what the
host can do to them.

Nothing is ever removed from a store, so an address stays valid, and two functions are the same
exactly if their addresses are. What the host does beyond that is left open: it may refuse to let
memories and tables grow, and functions whose code is not known may do anything that takes nothing
from the store. -/

namespace WasmSnapshot

/-- A table of references. -/
structure Table where
  /-- The type of the references. -/
  element : RefType
  /-- What the slots hold, if they do not hold null: the address of a function in a table of
  functions, and whatever the host tells its own values by in any other table. -/
  slots : Array (Option Address)
  /-- The largest number of slots, if there is a limit below that of the host. -/
  max : Option Nat
  deriving DecidableEq, Repr

namespace Table

/-- A table of null references. -/
def ofType (type : TableType) : Table where
  element := type.element
  slots := Array.replicate type.limits.min none
  max := type.limits.max

/-- Whether the table holds references to functions of any type. -/
def holdsFunctions (table : Table) : Bool := table.element.heap = RefType.func.heap

/-- The function in a slot, if there is one. -/
def function? (table : Table) (slot : Nat) : Option Address :=
  if table.holdsFunctions then table.slots[slot]?.join else none

/-- The functions in the slots, from the first one on. -/
def functions (table : Table) : List (Option Address) :=
  (List.range table.slots.size).map table.function?

/-- Whether a slot of the table may be given a reference to a function, or null. -/
def accepts (table : Table) (function : Option Address) : Bool :=
  table.holdsFunctions || function.isNone

/-- The largest number of slots that the type of the table allows. -/
def limit (table : Table) : Nat := min (table.max.getD TableType.maxSlots) TableType.maxSlots

/-- The table with `value` in the given slot. Nothing is changed where there is no such slot. -/
def set (table : Table) (slot : Nat) (value : Option Address) : Table :=
  { table with slots := table.slots.setIfInBounds slot value }

end Table

/-- A global and its present value, which is of the type of the global. -/
structure GlobalCell where
  type : GlobalType
  value : Value
  hasType : value.hasType type.value
  deriving DecidableEq, Repr

/-- What the indices in the code of a module mean in one of its instances. -/
structure Scope where
  types : List CompositeType
  functions : List Address
  tables : List Address
  memories : List Address
  globals : List Address
  deriving DecidableEq, Repr

/-- A function. -/
inductive Callable where
  /-- A function of an instance. -/
  | code (type : FuncType) (scope : Scope) (body : List Instr)
  /-- A function of the host, which always has the same results. -/
  | constant (type : FuncType) (results : List Value)
  /-- A function whose code is not known, be it of an instance or of the host. -/
  | foreign (type : FuncType)
  deriving DecidableEq, Repr

/-- The type of a function. -/
def Callable.type : Callable → FuncType
  | code type _ _ => type
  | constant type _ => type
  | foreign type => type

/-- Everything that instances consist of. -/
structure Store where
  functions : Array Callable := #[]
  tables : Array Table := #[]
  memories : Array Memory := #[]
  globals : Array GlobalCell := #[]
  deriving DecidableEq, Repr

/-- The second table is of the same type as the first one, no shorter, and not longer either than
tables become. -/
structure Table.Extends (before after : Table) : Prop where
  element_eq : after.element = before.element
  size_le : before.slots.size ≤ after.slots.size
  le_maxSlots : before.slots.size ≤ TableType.maxSlots → after.slots.size ≤ TableType.maxSlots

/-- The second store has all that the first one has: a function as it was, a table that is no shorter
and not too long, a memory that is no shorter, a global of the same type. -/
structure Store.Extends (before after : Store) : Prop where
  functions {address : Address} {function : Callable} :
    before.functions[address]? = some function → after.functions[address]? = some function
  tables {address : Address} {table : Table} : before.tables[address]? = some table →
    ∃ table', after.tables[address]? = some table' ∧ table.Extends table'
  memories {address : Address} {memory : Memory} : before.memories[address]? = some memory →
    ∃ memory', after.memories[address]? = some memory' ∧ memory.pages.size ≤ memory'.pages.size
  globals {address : Address} {cell : GlobalCell} : before.globals[address]? = some cell →
    ∃ cell', after.globals[address]? = some cell' ∧ cell'.type = cell.type

theorem Table.Extends.refl (table : Table) : table.Extends table := ⟨rfl, Nat.le_refl _, id⟩

theorem Store.Extends.refl (store : Store) : Extends store store :=
  ⟨id, fun h => ⟨_, h, .refl _⟩, fun h => ⟨_, h, Nat.le_refl _⟩, fun h => ⟨_, h, rfl⟩⟩

/-- Why something that runs on a store comes to an end early. -/
inductive RuntimeError where
  | unreachable
  | divisionByZero
  | integerOverflow
  | memoryOutOfBounds
  /-- A slot that the table does not have. -/
  | tableOutOfBounds
  /-- A table that is not one of functions is given a function. -/
  | elementTypeMismatch
  /-- A call through a slot that holds null. -/
  | uninitializedElement
  | indirectCallTypeMismatch
  /-- A function that is called from outside is not of the type that the caller expects. -/
  | signatureMismatch
  /-- A table cannot have as many more slots. -/
  | tableGrowth (added : Nat)
  | callDepthExceeded
  /-- An import is given an item of another kind, or one that does not exist. -/
  | incompatibleImport
  /-- The code has no meaning. A validator would have refused it. -/
  | invalidCode
  deriving DecidableEq, Repr

/-- The text of an error. -/
def RuntimeError.message : RuntimeError → String
  | unreachable => "unreachable"
  | divisionByZero => "integer divide by zero"
  | integerOverflow => "integer overflow"
  | memoryOutOfBounds => "out of bounds memory access"
  | tableOutOfBounds => "undefined element: out of bounds table access"
  | elementTypeMismatch => "element type mismatch"
  | uninitializedElement => "uninitialized element"
  | indirectCallTypeMismatch => "indirect call type mismatch"
  | signatureMismatch => "signature mismatch"
  | tableGrowth added => s!"failed to grow table by `{added}`"
  | callDepthExceeded => "call stack exhausted"
  | incompatibleImport => "incompatible import type"
  | invalidCode => "invalid code"

/-- Computations on a store. What they have done to it stays done when they end with an error. -/
abbrev Run := ExceptT RuntimeError (StateM Store)

namespace Run

/-- A value that has to be there. -/
def require {α : Type} (error : RuntimeError) : Option α → Run α
  | some value => pure value
  | none => throw error

/-- The function at an address. -/
def function (address : Address) : Run Callable := do
  require .invalidCode (← get).functions[address]?

/-- The table at an address. -/
def table (address : Address) : Run Table := do
  require .invalidCode (← get).tables[address]?

/-- The memory at an address. -/
def memory (address : Address) : Run Memory := do
  require .invalidCode (← get).memories[address]?

/-- The global at an address. -/
def global (address : Address) : Run GlobalCell := do
  require .invalidCode (← get).globals[address]?

/-- Puts a table at an address. -/
def setTable (address : Address) (table : Table) : Run Unit :=
  modify fun store => { store with tables := store.tables.setIfInBounds address table }

/-- Puts a function or null into a slot of the table at an address. -/
def setSlot (address : Address) (slot : Nat) (value : Option Address) : Run Unit := do
  let table ← table address
  if slot < table.slots.size then
    if table.accepts value then
      modify fun store => { store with tables := store.tables.modify address (·.set slot value) }
    else throw .elementTypeMismatch
  else throw .tableOutOfBounds

/-- Puts a memory at an address. -/
def setMemory (address : Address) (memory : Memory) : Run Unit :=
  modify fun store => { store with memories := store.memories.setIfInBounds address memory }

/-- Writes bytes to the memory at an address, from `start` on. -/
def writeMemory (address : Address) (start : Nat) (bytes : Bytes) : Run Unit := do
  let memory ← memory address
  if memory.holds start bytes.length then
    modify fun store =>
      { store with memories := store.memories.modify address (·.write start bytes) }
  else throw .memoryOutOfBounds

/-- Gives a global a value of its type. -/
def setGlobal (address : Address) (value : Value) : Run Unit := do
  let cell ← global address
  if hasType : value.hasType cell.type.value then
    modify fun store =>
      { store with globals := store.globals.setIfInBounds address ⟨cell.type, value, hasType⟩ }
  else throw .invalidCode

/-- Adds a function to the store. -/
def addFunction (function : Callable) : Run Address :=
  modifyGet fun store =>
    (store.functions.size, { store with functions := store.functions.push function })

/-- Adds a table to the store. -/
def addTable (table : Table) : Run Address :=
  modifyGet fun store => (store.tables.size, { store with tables := store.tables.push table })

/-- Adds a memory to the store. -/
def addMemory (memory : Memory) : Run Address :=
  modifyGet fun store =>
    (store.memories.size, { store with memories := store.memories.push memory })

/-- Adds a global to the store. -/
def addGlobal (cell : GlobalCell) : Run Address :=
  modifyGet fun store => (store.globals.size, { store with globals := store.globals.push cell })

end Run

/-- What a host does in its own way. -/
class Host where
  /-- Whether there is room for `added` more pages. A host may be short of it below any limit. -/
  hasPages (memory : Memory) (added : Nat) : Bool
  /-- Whether there is room for `added` more slots. -/
  hasSlots (table : Table) (added : Nat) : Bool
  /-- What a call does of the function at an address, where its code is not known. -/
  call (function : Address) (args : List Value) : Run (List Value)
  /-- Such a call may change what there is and add to it, but takes nothing away. -/
  call_extends (function : Address) (args : List Value) (store : Store) :
    store.Extends ((call function args).run.run store).2

/-- A host with room for all that types allow, and without functions but those whose code is known. -/
instance (priority := low) Host.plain : Host where
  hasPages _ _ := true
  hasSlots _ _ := true
  call _ _ := throw .invalidCode
  call_extends _ _ store := Store.Extends.refl store

variable [Host]

/-- The memory with `added` pages of zeros at its end, if it may become as large. -/
def Memory.grow? (memory : Memory) (added : Nat) : Option Memory :=
  if memory.pages.size + added ≤ memory.limit && Host.hasPages memory added then
    some { memory with pages := memory.pages ++ Array.replicate added Page.zeros }
  else none

/-- The table with `added` slots at its end that hold `filling`, if it may become as long. -/
def Table.grow? (table : Table) (added : Nat) (filling : Option Address) : Option Table :=
  if table.slots.size + added ≤ table.limit && Host.hasSlots table added then
    some { table with slots := table.slots ++ Array.replicate added filling }
  else none

end WasmSnapshot
