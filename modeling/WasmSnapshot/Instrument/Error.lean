import WasmSnapshot.Binary.Section

/-! The reasons for which a module is not instrumented. -/

namespace WasmSnapshot

/-- Why a module cannot be instrumented. No part of it is written in that case. -/
inductive InstrumentError where
  /-- The bytes are not a binary module. -/
  | malformed
  /-- The header announces something other than a core module. -/
  | unsupportedEncoding
  /-- A section that is to receive entries does not begin with a count. -/
  | malformedCount
  /-- The entries would no longer be counted by a number of 32 bits. -/
  | tooManyEntries (kind : SectionKind)
  /-- A section with its new entries is too long to be written. -/
  | sectionTooLong
  deriving DecidableEq, Repr

/-- The text of an error. -/
def InstrumentError.message : InstrumentError → String
  | malformed => "malformed module"
  | unsupportedEncoding =>
    "unsupported binary encoding, only core modules can be instrumented"
  | malformedCount => "malformed section entry count"
  | tooManyEntries kind => s!"too many entries in the {kind.label} index space"
  | sectionTooLong => "section too long"

end WasmSnapshot
