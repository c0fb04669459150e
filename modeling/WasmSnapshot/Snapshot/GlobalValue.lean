import WasmSnapshot.Json.Basic

/-! The value of a global in a snapshot: 32 bits, or 64 bits as two halves. -/

namespace WasmSnapshot

/-- The value of a global of an integer type. -/
inductive GlobalValue where
  | i32 (value : Int32)
  | i64 (high low : Int32)
  deriving DecidableEq, Repr

namespace GlobalValue

/-- An integer of 64 bits, split into its halves. -/
def ofInt64 (value : Int64) : GlobalValue := i64 (value >>> 32).toInt32 value.toInt32

/-- The integer that a value stands for. A value of 32 bits keeps its sign; of two halves, the
lower one is taken without sign. -/
def toInt64 : GlobalValue → Int64
  | i32 value => value.toInt64
  | i64 high low => (high.toInt64 <<< 32) ||| low.toUInt32.toUInt64.toInt64

/-- A number, or a list of the two halves. -/
def toJson : GlobalValue → Json
  | i32 value => .ofInt value.toInt
  | i64 high low => .array [.ofInt high.toInt, .ofInt low.toInt]

/-- The value that a number or a list of two numbers stands for. -/
def ofJson? : Json → Option GlobalValue
  | .array [high, low] => do
    let high ← high.int32?
    let low ← low.int32?
    pure (i64 high low)
  | value => i32 <$> value.int32?

end GlobalValue

end WasmSnapshot
