import WasmSnapshot.Module.Types

/-! Values that programs compute with. -/

namespace WasmSnapshot

/-- Where a function, table, memory or global is found in a store. -/
abbrev Address := Nat

/-- A value. Floating-point numbers and vectors are kept as their bits; a reference is null or a
function. -/
inductive Value where
  | i32 (bits : UInt32)
  | i64 (bits : UInt64)
  | f32 (bits : UInt32)
  | f64 (bits : UInt64)
  | v128 (bytes : Bytes)
  | ref (function : Option Address)
  deriving DecidableEq, Repr

namespace Value

/-- The value of a type that is all zeros: zero, or the null reference. -/
def zero : ValueType → Value
  | .i32 => i32 0
  | .i64 => i64 0
  | .f32 => f32 0
  | .f64 => f64 0
  | .v128 => v128 (List.replicate 16 0)
  | .ref _ => ref none

/-- Whether a value is of a type. References are not told apart. -/
def hasType : Value → ValueType → Bool
  | i32 _, .i32 => true
  | i64 _, .i64 => true
  | f32 _, .f32 => true
  | f64 _, .f64 => true
  | v128 _, .v128 => true
  | ref _, .ref _ => true
  | _, _ => false

theorem hasType_zero (type : ValueType) : (zero type).hasType type := by
  cases type <;> rfl

end Value

end WasmSnapshot
