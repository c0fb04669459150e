import WasmSnapshot.Accessor.Basic
import WasmSnapshot.Accessor.Exports
import WasmSnapshot.Accessor.Function
import WasmSnapshot.Accessor.IndexMap
import WasmSnapshot.Binary.Leb128
import WasmSnapshot.Binary.Name
import WasmSnapshot.Binary.Reader
import WasmSnapshot.Binary.Section
import WasmSnapshot.Host.Exec
import WasmSnapshot.Host.Instance
import WasmSnapshot.Host.Memory
import WasmSnapshot.Host.Store
import WasmSnapshot.Host.Value
import WasmSnapshot.Instrument.Additions
import WasmSnapshot.Instrument.Basic
import WasmSnapshot.Instrument.Entries
import WasmSnapshot.Instrument.Error
import WasmSnapshot.Instrument.Outline
import WasmSnapshot.Instrument.Splice
import WasmSnapshot.Json.Basic
import WasmSnapshot.Json.Reader
import WasmSnapshot.Module.Basic
import WasmSnapshot.Module.Entries
import WasmSnapshot.Module.Instr
import WasmSnapshot.Module.Types
import WasmSnapshot.Proofs.Binary.Extension
import WasmSnapshot.Proofs.Binary.Leb128
import WasmSnapshot.Selection
import WasmSnapshot.Snapshot.Basic
import WasmSnapshot.Snapshot.Capture
import WasmSnapshot.Snapshot.Error
import WasmSnapshot.Snapshot.GlobalValue
import WasmSnapshot.Snapshot.Restore
import WasmSnapshot.Snapshot.Text
import WasmSnapshot.Snapshot.Tracked
import WasmSnapshot.Text.Decimal
import WasmSnapshot.Text.Quoted
import WasmSnapshot.Proofs.Binary.Section
import WasmSnapshot.Proofs.Module.Entries
import WasmSnapshot.Proofs.Instrument.Splice
import WasmSnapshot.Proofs.Module.Sections
import WasmSnapshot.Proofs.Accessor.Exports
import WasmSnapshot.Proofs.Accessor.Exposed
import WasmSnapshot.Proofs.Accessor.Function
import WasmSnapshot.Proofs.Accessor.Meaning
import WasmSnapshot.Proofs.Host.Memory
import WasmSnapshot.Proofs.Instrument.Append
import WasmSnapshot.Proofs.Instrument.Exports
import WasmSnapshot.Proofs.Instrument.Names
import WasmSnapshot.Proofs.Instrument.Grown
import WasmSnapshot.Proofs.Instrument.Layout
import WasmSnapshot.Proofs.Snapshot.Capture
import WasmSnapshot.Proofs.Snapshot.Overlay
import WasmSnapshot.Proofs.Snapshot.Parts
import WasmSnapshot.Proofs.Snapshot.Restore
import WasmSnapshot.Proofs.Snapshot.RoundTrip
import WasmSnapshot.Proofs.Snapshot.WriteBack
import WasmSnapshot.Proofs.Snapshot.Writes
import WasmSnapshot.Proofs.Snapshot.Order
import WasmSnapshot.Proofs.Snapshot.Rejected
import WasmSnapshot.Proofs.Snapshot.Alike
import WasmSnapshot.Proofs.Snapshot.Sessions
import WasmSnapshot.Proofs.Snapshot.Namespaces
import WasmSnapshot.Proofs.Binary.File
import WasmSnapshot.Proofs.Instrument.Unchanged
import WasmSnapshot.Proofs.Instrument.Placement
import WasmSnapshot.Proofs.Instrument.Independence
import WasmSnapshot.Proofs.Instrument.Counts
import WasmSnapshot.Proofs.Json.Reader
import WasmSnapshot.Proofs.Snapshot.Text
import WasmSnapshot.Proofs.Accessor.Resolved
import WasmSnapshot.Proofs.Accessor.Padded
import WasmSnapshot.Proofs.Snapshot.TableSize
import WasmSnapshot.Proofs.Snapshot.Readings
import WasmSnapshot.Proofs.Snapshot.Legible
import WasmSnapshot.Proofs.Snapshot.Determined
import WasmSnapshot.Proofs.Instrument.Overfull
import WasmSnapshot.Proofs.Binary.Forms
import WasmSnapshot.Proofs.Binary.Cuts
import WasmSnapshot.Proofs.Instrument.Merged
import WasmSnapshot.Proofs.Instrument.Pushes
import WasmSnapshot.Proofs.Instrument.Tracks
import WasmSnapshot.Proofs.Snapshot.Tracking
