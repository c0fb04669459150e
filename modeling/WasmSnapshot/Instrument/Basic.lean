import WasmSnapshot.Instrument.Additions
import WasmSnapshot.Instrument.Splice

/-! Instrumenting a module: giving it exports through which the state of its instances can be read
and written. -/

namespace WasmSnapshot

/-- An instrumented module, with the exports that it was given. -/
structure Instrumented where
  bytes : Bytes
  exports : List Export
  deriving DecidableEq, Repr

/-- The symbol that names of accessors begin with if no other is chosen. -/
def defaultSymbol : String := "_"

/-- The kinds of section that can receive entries, in the order of their ranks. -/
def Additions.targets : List SectionKind := [.types, .functions, .exports, .code]

/-- The entries that have to be placed. -/
def Additions.pending (additions : Additions) : Pending :=
  (targets.map fun kind => (kind, additions.entries kind)).filter fun (_, entries) =>
    !entries.isEmpty

/-- The module with accessors for the selected parts of its state, exported under names that begin
with `symbol`. -/
def instrument (selection : Selection) (symbol : String) (bytes : Bytes) :
    Except InstrumentError Instrumented := do
  let sections ← Section.readModule bytes
  let outline ← Outline.ofSections sections
  let additions ← Additions.ofOutline selection symbol outline
  let spliced ← additions.pending.splice outline.hasSection sections
  if spliced.all Section.fits then
    pure { bytes := Section.encodeModule spliced, exports := additions.exports.toList }
  else throw .sectionTooLong

/-- The bytes of the instrumented module alone. -/
def instrumentedBytes (selection : Selection) (symbol : String) (bytes : Bytes) :
    Except InstrumentError Bytes := do
  pure (← instrument selection symbol bytes).bytes

end WasmSnapshot
