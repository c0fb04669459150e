import WasmSnapshot.Snapshot.Capture
import WasmSnapshot.Snapshot.Restore

/-! Instances that remember whether they have just been captured.

The first restoration after a capture would write back what the instance holds already, so it is
skipped. -/

namespace WasmSnapshot

/-- Whether an instance is known to hold the state that was captured last. -/
inductive SyncState where
  /-- The instance may hold any state. -/
  | normal
  /-- The instance has been captured, and not been resumed since. -/
  | captured
  deriving DecidableEq, Repr

/-- An instance of an instrumented module, with the symbol of its accessors. -/
structure TrackedInstance where
  inst : Instance
  symbol : String
  state : SyncState := .normal
  deriving DecidableEq, Repr

namespace TrackedInstance

variable [Host]

/-- An instance that has not been captured. -/
def ofInstance (inst : Instance) (symbol : String) : TrackedInstance := { inst, symbol }

/-- Captures the instance. The outcome stands beside the instance as it is afterwards. -/
def hibernate (tracked : TrackedInstance) :
    StateM Store (TrackedInstance × Except AccessError Snapshot) := do
  match ← ExceptT.run (Snapshot.capture tracked.symbol tracked.inst) with
  | .ok snapshot => pure ({ tracked with state := .captured }, .ok snapshot)
  | .error error => pure (tracked, .error error)

/-- Brings the instance to the state that a snapshot records, unless it has just been captured.
The outcome stands beside the instance as it is afterwards. -/
def resume (tracked : TrackedInstance) (snapshot : Snapshot) :
    StateM Store (TrackedInstance × Except AccessError Unit) := do
  match tracked.state with
  | .captured => pure ({ tracked with state := .normal }, .ok ())
  | .normal => do
    let outcome ← ExceptT.run (snapshot.restore tracked.inst)
    pure (tracked, outcome)

end TrackedInstance

end WasmSnapshot
