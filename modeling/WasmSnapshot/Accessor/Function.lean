import WasmSnapshot.Accessor.Basic
import WasmSnapshot.Module.Instr

/-! The functions that read and write globals from outside.

A global of type `i32` gets a getter and a setter. A global of type `i64` is passed as two halves
of 32 bits, so that the functions need no other type than `i32`: two getters, one for each half,
and a setter that puts the halves together. -/

namespace WasmSnapshot

/-- The types of accessor functions. -/
inductive Signature where
  /-- One `i32` and no result. -/
  | i32Setter
  /-- The upper and the lower half of an `i64`, and no result. -/
  | i64Setter
  /-- No parameter and one `i32`. -/
  | getter
  deriving DecidableEq, Repr

namespace Signature

/-- The signatures in the order in which they are added to a module. -/
def inOrder : List Signature := [i32Setter, i64Setter, getter]

/-- The position of a signature among those that are added. -/
def offset : Signature → UInt32
  | i32Setter => 0
  | i64Setter => 1
  | getter => 2

/-- The function type that a signature stands for. -/
def type : Signature → FuncType
  | i32Setter => ⟨[.i32], []⟩
  | i64Setter => ⟨[.i32, .i32], []⟩
  | getter => ⟨[], [.i32]⟩

/-- The written form of an entry of the type section. -/
def encode : Signature → Bytes
  | i32Setter => [0x60, 1, 0x7f, 0]
  | i64Setter => [0x60, 2, 0x7f, 0x7f, 0]
  | getter => [0x60, 0, 1, 0x7f]

end Signature

/-- A function that reads or writes a global: the accessor that it serves, its type and its
code. -/
structure AccessorFunction where
  accessor : Accessor
  signature : Signature
  code : List Instr
  deriving DecidableEq, Repr

/-- The types of the globals that get accessors. -/
inductive IntType where
  | i32
  | i64
  deriving DecidableEq, Repr

namespace IntType

/-- The integer type that a value type is, if it is one. -/
def ofValueType? : ValueType → Option IntType
  | .i32 => some i32
  | .i64 => some i64
  | _ => none

/-- How many functions a global of this type gets. -/
def functionCount : IntType → Nat
  | i32 => 2
  | i64 => 3

/-- The functions for the global at `index`, in the order in which they are added. -/
def accessorFunctions (type : IntType) (index : UInt32) : List AccessorFunction :=
  match type with
  | i32 => [
      { accessor := .i32Getter index
        signature := .getter
        code := [.globalGet index] },
      { accessor := .i32Setter index
        signature := .i32Setter
        code := [.localGet 0, .globalSet index] }]
  | i64 => [
      { accessor := .i64GetterHigh index
        signature := .getter
        code := [.globalGet index, .i64Const 32, .i64ShrU, .i32WrapI64] },
      { accessor := .i64GetterLow index
        signature := .getter
        code := [.globalGet index, .i32WrapI64] },
      { accessor := .i64Setter index
        signature := .i64Setter
        code := [
          .localGet 0, .i64ExtendI32U, .i64Const 32, .i64Shl,
          .localGet 1, .i64ExtendI32U, .i64Or, .globalSet index] }]

end IntType

end WasmSnapshot
