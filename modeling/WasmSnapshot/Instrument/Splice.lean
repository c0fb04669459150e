import WasmSnapshot.Instrument.Entries

/-! Splicing entries into the sections of a module.

Each kind of entry goes to the first section of its kind. Where the module has no such section, one
is made, right before the first section of a higher rank. All other sections stay as they are. -/

namespace WasmSnapshot

/-- Entries that wait for a section of their kind, in the order of the ranks. -/
abbrev Pending := List (SectionKind × Entries)

namespace Pending

/-- The sections that hold pending entries alone. -/
def newSections (pending : Pending) : List Section :=
  pending.map fun (kind, entries) => ⟨kind.id, entries.contents⟩

/-- The entries for sections of a kind, and those that wait for others. -/
def takeFor (kind : SectionKind) : Pending → Option Entries × Pending
  | [] => (none, [])
  | (target, entries) :: rest =>
    if target = kind then (some entries, rest)
    else
      let (found, others) := takeFor kind rest
      (found, (target, entries) :: others)

/-- Splices pending entries into sections, of which `present` tells the kinds that occur in the
whole file. -/
def splice (present : SectionKind → Bool) :
    Pending → List Section → Except InstrumentError (List Section)
  | pending, [] => .ok (newSections pending)
  | pending, s :: rest =>
    match s.kind? with
    | none => do
      pure (s :: (← splice present pending rest))
    | some kind => do
      let (due, waiting) :=
        pending.partition fun (target, _) => !present target && target.rank < kind.rank
      match takeFor kind waiting with
      | (some entries, waiting) => do
        let contents ← entries.appendTo kind s.contents
        pure (newSections due ++ ⟨s.id, contents⟩ :: (← splice present waiting rest))
      | (none, _) => do
        pure (newSections due ++ s :: (← splice present waiting rest))

end Pending

end WasmSnapshot
