import WasmSnapshot.Host.Store

/-! Getting at the state of an instance, and the reasons for which this fails. -/

namespace WasmSnapshot

/-- Why the state of an instance is not captured or restored. -/
inductive AccessError where
  /-- An accessor did not run to its end, or a table did not grow. -/
  | runtime (error : RuntimeError)
  /-- The memory cannot have as many more pages as the snapshot needs. -/
  | memoryGrowth (pages added : Nat)
  /-- The instance has no accessor of this name. -/
  | missingExport (name : String)
  /-- The snapshot holds memory, and the instance exports none under this name. -/
  | memoryNotExported (name : String)
  /-- The snapshot holds table entries, and the instance exports no table under this name. -/
  | tableNotExported (name : String)
  /-- The snapshot has more table slots than a table can have. -/
  | tableTooLong (slots : Nat)
  /-- The snapshot has more globals than positions of 32 bits can count. -/
  | globalsTooLong
  deriving DecidableEq, Repr

namespace AccessError

/-- The text for a snapshot that does not fit an instance. -/
def mismatch (reason : String) : String := "snapshot does not match the instance: " ++ reason

/-- The text of an error. -/
def message : AccessError → String
  | runtime error => error.message
  | memoryGrowth pages added =>
    s!"The memory could not grow: current size {pages} pages, requested increase: {added} pages"
  | missingExport name => "missing export " ++ name
  | memoryNotExported name =>
    mismatch s!"the snapshot holds memory but `{name}` is not exported"
  | tableNotExported name =>
    mismatch s!"the snapshot holds table entries but `{name}` is not exported"
  | tableTooLong slots => mismatch s!"table snapshot has {slots} slots"
  | globalsTooLong => "too many globals"

end AccessError

/-- Computations that get at the state of an instance through its accessors. What they have done to
the store stays done when they end with an error. -/
abbrev Access := ExceptT AccessError (StateM Store)

/-- A computation on the store, the errors of which become errors of the access. -/
def Access.ofRun {α : Type} (action : Run α) : Access α :=
  ExceptT.adapt AccessError.runtime action

/-- An outcome that does not depend on the store. -/
def Access.ofExcept {α : Type} : Except AccessError α → Access α
  | .ok value => pure value
  | .error error => throw error

end WasmSnapshot
