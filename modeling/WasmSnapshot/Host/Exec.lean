import WasmSnapshot.Host.Store

/-! Running code.

The operand stack is a list, its top first. Code that is known is straight-line, so it ends by
itself; only calls can go on for ever, and they may nest no deeper than `maxCallDepth`. What a
function does whose code is not known is up to the host. -/

namespace WasmSnapshot

/-- What instructions refer to besides the stack. -/
structure Frame where
  scope : Scope
  locals : List Value

namespace Exec

variable [Host]

/-- How deep calls may nest. -/
def maxCallDepth : Nat := 100000

/-- Operands, the top of the stack first. -/
abbrev Stack := List Value

/-- Takes a word off the stack. -/
def pop32 (stack : Stack) : Run (UInt32 × Stack) :=
  match stack with
  | .i32 a :: rest => pure (a, rest)
  | _ => throw .invalidCode

/-- Takes a double word off the stack. -/
def pop64 (stack : Stack) : Run (UInt64 × Stack) :=
  match stack with
  | .i64 a :: rest => pure (a, rest)
  | _ => throw .invalidCode

/-- Combines the two topmost words, the lower one first. -/
def binary32 (op : UInt32 → UInt32 → Run UInt32) (stack : Stack) : Run Stack := do
  let (b, stack) ← pop32 stack
  let (a, stack) ← pop32 stack
  pure (.i32 (← op a b) :: stack)

/-- Combines the two topmost double words, the lower one first. -/
def binary64 (op : UInt64 → UInt64 → UInt64) (stack : Stack) : Run Stack := do
  let (b, stack) ← pop64 stack
  let (a, stack) ← pop64 stack
  pure (.i64 (op a b) :: stack)

/-- The quotient of two words as numbers with sign, rounded toward zero. -/
def divideSigned (a b : UInt32) : Run UInt32 :=
  if b = 0 then throw .divisionByZero
  else if a.toInt32 = Int32.minValue ∧ b.toInt32 = -1 then throw .integerOverflow
  else pure (a.toInt32 / b.toInt32).toUInt32

/-- The address of an item, by its index in an index space. -/
def resolve (space : List Address) (index : UInt32) : Run Address :=
  Run.require .invalidCode space[index.toNat]?

/-- The memory that code works on: the first one. -/
def memoryAddress (frame : Frame) : Run Address := resolve frame.scope.memories 0

/-- The first byte that an access touches. -/
def effectiveAddress (access : MemArg) (base : UInt32) : Nat :=
  base.toNat + access.offset.toNat

/-- Pushes the word at the address on the stack. -/
def load (frame : Frame) (access : MemArg) (stack : Stack) : Run Stack := do
  let (base, stack) ← pop32 stack
  let memory ← Run.memory (← memoryAddress frame)
  let bytes ← Run.require .memoryOutOfBounds (memory.read? (effectiveAddress access base) 4)
  pure (.i32 (UInt32.ofNat bytes.littleEndian) :: stack)

/-- Stores the topmost word at the address below it. -/
def store (frame : Frame) (access : MemArg) (stack : Stack) : Run Stack := do
  let (word, stack) ← pop32 stack
  let (base, stack) ← pop32 stack
  let address ← memoryAddress frame
  Run.writeMemory address (effectiveAddress access base) (wordBytes word)
  pure stack

/-- Grows a memory, and pushes its old size, or `-1` if it stays as it is. -/
def growMemory (frame : Frame) (index : UInt32) (stack : Stack) : Run Stack := do
  let (added, stack) ← pop32 stack
  let address ← resolve frame.scope.memories index
  let memory ← Run.memory address
  match memory.grow? added.toNat with
  | some grown => do
    Run.setMemory address grown
    pure (.i32 (UInt32.ofNat memory.pages.size) :: stack)
  | none => pure (.i32 (-1) :: stack)

/-- Calls a function with arguments off the stack and pushes its results. -/
def callWith (invoke : Address → List Value → Run (List Value)) (address : Address)
    (stack : Stack) : Run Stack := do
  let type := (← Run.function address).type
  let count := type.params.length
  let results ← invoke address (stack.take count).reverse
  pure (results.reverse ++ stack.drop count)

/-- The function in the slot of a table that the top of the stack names. -/
def indirectCallee (frame : Frame) (typeIndex tableIndex slot : UInt32) : Run Address := do
  let table ← Run.table (← resolve frame.scope.tables tableIndex)
  if slot.toNat < table.slots.size then
    let address ← Run.require .uninitializedElement (table.function? slot.toNat)
    let function ← Run.function address
    match frame.scope.types[typeIndex.toNat]? with
    | some (.func type) =>
      if function.type = type then pure address else throw .indirectCallTypeMismatch
    | _ => throw .invalidCode
  else throw .tableOutOfBounds

/-- Carries out one instruction. -/
def step (invoke : Address → List Value → Run (List Value)) (frame : Frame) (stack : Stack) :
    Instr → Run Stack
  | .unreachable => throw .unreachable
  | .nop => pure stack
  | .ret => pure stack
  | .call function => do callWith invoke (← resolve frame.scope.functions function) stack
  | .callIndirect type table => do
    let (slot, stack) ← pop32 stack
    callWith invoke (← indirectCallee frame type table slot) stack
  | .drop => pure stack.tail
  | .localGet index => do
    let value ← Run.require .invalidCode frame.locals[index.toNat]?
    pure (value :: stack)
  | .globalGet index => do
    let cell ← Run.global (← resolve frame.scope.globals index)
    pure (cell.value :: stack)
  | .globalSet index => do
    match stack with
    | value :: stack => do
      Run.setGlobal (← resolve frame.scope.globals index) value
      pure stack
    | [] => throw .invalidCode
  | .i32Load access => load frame access stack
  | .i32Store access => store frame access stack
  | .memoryGrow memory => growMemory frame memory stack
  | .i32Const value => pure (.i32 value.toUInt32 :: stack)
  | .i64Const value => pure (.i64 value.toUInt64 :: stack)
  | .f32Const bits => pure (.f32 bits :: stack)
  | .f64Const bits => pure (.f64 bits :: stack)
  | .v128Const bytes => pure (.v128 bytes :: stack)
  | .refNull _ => pure (.ref none :: stack)
  | .refFunc function => do
    pure (.ref (some (← resolve frame.scope.functions function)) :: stack)
  | .i32Add => binary32 (fun a b => pure (a + b)) stack
  | .i32Sub => binary32 (fun a b => pure (a - b)) stack
  | .i32Mul => binary32 (fun a b => pure (a * b)) stack
  | .i32DivS => binary32 divideSigned stack
  | .i64Add => binary64 (· + ·) stack
  | .i64Sub => binary64 (· - ·) stack
  | .i64Mul => binary64 (· * ·) stack
  | .i64Or => binary64 (· ||| ·) stack
  | .i64Shl => binary64 (· <<< ·) stack
  | .i64ShrU => binary64 (· >>> ·) stack
  | .i32WrapI64 => do
    let (a, stack) ← pop64 stack
    pure (.i32 a.toUInt32 :: stack)
  | .i64ExtendI32U => do
    let (a, stack) ← pop32 stack
    pure (.i64 a.toUInt64 :: stack)
  | .block | .refI31 => throw .invalidCode

/-- Carries out instructions one after another, up to a return. -/
def runCode (invoke : Address → List Value → Run (List Value)) (frame : Frame) :
    List Instr → Stack → Run Stack
  | [], stack => pure stack
  | .ret :: _, stack => pure stack
  | instr :: rest, stack => do
    runCode invoke frame rest (← step invoke frame stack instr)

/-- The results of a function, with calls that nest at most as deep as `depth` says. -/
def invoke : Nat → Address → List Value → Run (List Value)
  | 0, _, _ => throw .callDepthExceeded
  | depth + 1, address, args => do
    match ← Run.function address with
    | .constant _ results => pure results
    | .foreign _ => Host.call address args
    | .code type scope body => do
      let stack ← runCode (invoke depth) ⟨scope, args⟩ body []
      pure (stack.take type.results.length).reverse

/-- The value of a constant expression. -/
def evalConst (scope : Scope) (code : List Instr) : Run Value := do
  match ← runCode (fun _ _ => throw .invalidCode) ⟨scope, []⟩ code [] with
  | value :: _ => pure value
  | [] => throw .invalidCode

/-- The value of a constant expression as it stands in a module. -/
def evalBytes (scope : Scope) (bytes : Bytes) : Run Value := do
  evalConst scope (← Run.require .invalidCode (Instr.readExpr.whole bytes))

end Exec

namespace Run

variable [Host]

/-- Whether values are of the given types, one by one. -/
def haveTypes (values : List Value) (types : List ValueType) : Bool :=
  values.length = types.length && (values.zip types).all fun (value, type) => value.hasType type

/-- Calls a function from outside. -/
def call (address : Address) (args : List Value) : Run (List Value) := do
  let callee ← function address
  if haveTypes args callee.type.params then Exec.invoke Exec.maxCallDepth address args
  else throw .signatureMismatch

/-- Calls a function from outside that has to be of the given type. -/
def callTyped (type : FuncType) (address : Address) (args : List Value) : Run (List Value) := do
  let callee ← function address
  if callee.type = type then Exec.invoke Exec.maxCallDepth address args
  else throw .signatureMismatch

end Run

end WasmSnapshot
