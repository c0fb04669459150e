import WasmSnapshot.Accessor.Exports
import WasmSnapshot.Accessor.Function
import WasmSnapshot.Snapshot.Basic
import WasmSnapshot.Snapshot.Error

/-! Bringing an instance to the state that a snapshot records.

Memory is written first, then the table, then the globals in ascending order. Parts of the instance
that the snapshot holds no value for stay as they are. The first thing that cannot be done ends the
restoration, and what was written before it stays. -/

namespace WasmSnapshot

namespace Restore

variable [Host]

/-- The number of pages that hold the given number of words. -/
def pagesFor (words : Nat) : Nat := (4 * words + (pageSize - 1)) / pageSize

/-- The memory with room for at least `pages` pages. -/
def growMemory (memory : Memory) (pages : Nat) : Access Memory :=
  if memory.pages.size < pages then
    match memory.grow? (pages - memory.pages.size) with
    | some grown => pure grown
    | none => throw (.memoryGrowth memory.pages.size (pages - memory.pages.size))
  else pure memory

/-- Writes the words to the front of the memory at an address, which grows if it is too small. -/
def writeMemory (address : Address) (words : Array UInt32) : Access Unit := do
  let memory ← growMemory (← Access.ofRun (Run.memory address)) (pagesFor words.size)
  if memory.holds 0 (4 * words.size) then
    Access.ofRun (Run.setMemory address (memory.overlay words))
  else throw (.runtime .memoryOutOfBounds)

/-- Writes the recorded memory, if there is one, which an instance has to export for that. -/
def restoreMemory (symbol : String) (exports : AccessorExports) :
    Option (Array UInt32) → Access Unit
  | none => pure ()
  | some words =>
    match exports.memory with
    | none => throw (.memoryNotExported (Accessor.memory.exportName symbol))
    | some address => writeMemory address words

/-- Lets the table at an address grow to at least `length` slots. -/
def growTable (address : Address) (length : Nat) : Access Unit := do
  let table ← Access.ofRun (Run.table address)
  if table.slots.size < length then
    let added := length - table.slots.size
    let grown ← Access.ofRun (Run.require (.tableGrowth added) (table.grow? added none))
    Access.ofRun (Run.setTable address grown)
  else pure ()

/-- Puts a function of the module into a slot of the table at an address. -/
def writeSlot (symbol : String) (exports : AccessorExports) (address : Address)
    (entry : Option UInt32 × Nat) : Access Unit := do
  match entry.1 with
  | none => pure ()
  | some index =>
    match exports.functions.get? index with
    | none => throw (.missingExport ((Accessor.function index).exportName symbol))
    | some function => Access.ofRun (Run.setSlot address entry.2 (some function))

/-- Writes the recorded slots to the table at an address, which grows if it is too short. -/
def writeTable (symbol : String) (exports : AccessorExports) (address : Address)
    (entries : List (Option UInt32)) : Access Unit :=
  if UInt32.size ≤ entries.length then throw (.tableTooLong entries.length)
  else do
    growTable address entries.length
    entries.zipIdx.forM (writeSlot symbol exports address)

/-- Writes the recorded slots, if they hold a function, to the table that an instance has to export
for that. -/
def restoreTable (symbol : String) (exports : AccessorExports) (entries : List (Option UInt32)) :
    Access Unit :=
  if entries.any Option.isSome then
    match exports.table with
    | none => throw (.tableNotExported (Accessor.table.exportName symbol))
    | some address => writeTable symbol exports address entries
  else pure ()

/-- The setter of a global for values of the given kind, and its arguments. -/
def setterFor (index : UInt32) : GlobalValue → Accessor × Signature × List Value
  | .i32 value => (.i32Setter index, .i32Setter, [.i32 value.toUInt32])
  | .i64 high low => (.i64Setter index, .i64Setter, [.i32 high.toUInt32, .i32 low.toUInt32])

/-- Gives a global the recorded value. The position after it has to be one of 32 bits, too. -/
def writeGlobal (symbol : String) (exports : AccessorExports)
    (entry : Option GlobalValue × Nat) : Access Unit :=
  if UInt32.size ≤ entry.2 + 1 then throw .globalsTooLong
  else
    match entry.1 with
    | none => pure ()
    | some value => do
      let (setter, signature, args) := setterFor (UInt32.ofNat entry.2) value
      match exports.accessor? setter with
      | none => throw (.missingExport (setter.exportName symbol))
      | some address => do
        let _results ← Access.ofRun (Run.callTyped signature.type address args)

end Restore

variable [Host]

/-- Brings an instance to the state that a snapshot records, through the accessors under the symbol
of the snapshot. -/
def Snapshot.restore (snapshot : Snapshot) (inst : Instance) : Access Unit := do
  let exports := AccessorExports.ofInstance snapshot.symbol inst
  Restore.restoreMemory snapshot.symbol exports snapshot.memory
  Restore.restoreTable snapshot.symbol exports snapshot.table
  snapshot.globals.zipIdx.forM (Restore.writeGlobal snapshot.symbol exports)

end WasmSnapshot
