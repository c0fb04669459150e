import WasmSnapshot.Proofs.Instrument.AnyOrder
import WasmSnapshot.Proofs.Instrument.Basic

/-! Instrumenting a module only appends. The file may be any that can be outlined, with its sections
in any order and as often as it likes; nothing is said here of what the sections hold besides their
counts. -/

namespace WasmSnapshot

namespace Additions

variable {selection : Selection} {symbol : String} {outline : Outline} {additions : Additions}
  {kind : SectionKind}

/-- How many entries are added to the sections of a kind. -/
def size (additions : Additions) : SectionKind → Nat
  | .types => additions.signatures.size
  | .functions => additions.functions.size
  | .exports => additions.exports.size
  | .code => additions.code.size
  | _ => 0

/-- Only the exports can be too many to be counted. -/
theorem size_lt_of_ne (hlisted : Listed selection symbol outline additions)
    (hkind : kind ≠ .exports) : additions.size kind < 2 ^ 32 := by
  have hindices := hlisted.indices_lt
  cases kind with
  | types =>
    have hle : (signaturesFor selection outline).length ≤ 3 := by
      unfold signaturesFor
      split <;> decide
    rw [size, ← Array.length_toList, hlisted.signatures]
    omega
  | functions =>
    rw [size, ← Array.length_toList, hlisted.functions, List.length_map]
    omega
  | code =>
    rw [size, ← Array.length_toList, hlisted.code, List.length_map]
    omega
  | exports => exact absurd rfl hkind
  | imports | tables | memories | tags | globals | start | elements | dataCount | data =>
    exact Nat.two_pow_pos 32

theorem size_lt (hlisted : Listed selection symbol outline additions)
    (hexports : additions.exports.toList.length < 2 ^ 32) (kind : SectionKind) :
    additions.size kind < 2 ^ 32 := by
  by_cases hkind : kind = .exports
  · subst hkind
    exact hexports
  · exact size_lt_of_ne hlisted hkind

/-- The entries of a kind are counted in 32 bits. -/
theorem toNat_count_entries (additions : Additions) (kind : SectionKind) :
    (additions.entries kind).count.toNat = additions.size kind % 2 ^ 32 := by
  cases kind with
  | types | functions | exports | code => exact UInt32.toNat_ofNat' ..
  | imports | tables | memories | tags | globals | start | elements | dataCount | data => rfl

theorem count_entries (h : additions.size kind < 2 ^ 32) :
    (additions.entries kind).count.toNat = additions.size kind := by
  rw [toNat_count_entries, Nat.mod_eq_of_lt h]

/-- With fewer than `2 ^ 32` entries, there is something to be added just if there is an entry. -/
theorem not_isEmpty_entries (h : additions.size kind < 2 ^ 32) :
    (!(additions.entries kind).isEmpty) = decide (0 < additions.size kind) := by
  rw [Entries.isEmpty, ← decide_not, decide_eq_decide, ← UInt32.toNat_inj, count_entries h]
  exact Nat.pos_iff_ne_zero.symm

theorem pending_eq (h : ∀ kind, additions.size kind < 2 ^ 32) :
    additions.pending = (targets.filter fun kind => 0 < additions.size kind).map fun kind =>
      (kind, additions.entries kind) := by
  rw [pending, List.filter_map]
  simp only [Function.comp_def, not_isEmpty_entries (h _)]

theorem targets_pending (h : ∀ kind, additions.size kind < 2 ^ 32) :
    additions.pending.targets = targets.filter fun kind => 0 < additions.size kind := by
  rw [Pending.targets, pending_eq h, List.map_map]
  exact List.map_id _

theorem eq_entries_of_lookup {entries : Entries}
    (h : additions.pending.lookup kind = some entries) :
    kind ∈ targets ∧ entries = additions.entries kind := by
  rw [lookup_pending, Module.someEntries] at h
  split at h
  · next hkind =>
    split at h
    · cases h
    · cases h
      exact ⟨hkind, rfl⟩
  · cases h

theorem lookup_of_pos (h : ∀ kind, additions.size kind < 2 ^ 32) (hkind : kind ∈ targets)
    (hpos : 0 < additions.size kind) :
    additions.pending.lookup kind = some (additions.entries kind) := by
  apply Pending.lookup_of_mem additions.targets_nodup
  rw [pending_eq h]
  exact List.mem_map_of_mem (List.mem_filter.2 ⟨hkind, decide_eq_true hpos⟩)

/-- The contents of a section that had `count` entries `old` before those for its kind. -/
def countedIn (additions : Additions) (kind : SectionKind) (count : Nat) (old : Bytes) : Bytes :=
  Leb128.encode (count + additions.size kind) ++ old ++ (additions.entries kind).bytes

/-- The sections of an output are those of the input, in their order and with their ids, and among
them new ones with ids that the input does not have. The additions of each kind come after the
entries of the first section of their kind, whose count is written anew, or else make up one of the
new sections. Everything else is what it was. -/
structure Appended (additions : Additions) (sections spliced : List Section) : Prop where
  ids : (Section.kept (sections.map (·.id)) spliced).map (·.id) = sections.map (·.id)
  receives : ∀ kind ∈ targets, 0 < additions.size kind →
    ∀ i, Section.first? kind sections = some i → ∃ s count old, sections[i]? = some s ∧
      Leb128.size s.contents = some (count, old) ∧ count + additions.size kind < 2 ^ 32 ∧
      (Section.kept (sections.map (·.id)) spliced)[i]? =
        some ⟨s.id, additions.countedIn kind count old⟩
  verbatim : ∀ i,
    (∀ kind ∈ targets, 0 < additions.size kind → Section.first? kind sections ≠ some i) →
      (Section.kept (sections.map (·.id)) spliced)[i]? = sections[i]?
  created : (Section.created (sections.map (·.id)) spliced).Perm
    ((targets.filter fun kind =>
      0 < additions.size kind && !(sections.map (·.id)).contains kind.id).map fun kind =>
        ⟨kind.id, additions.countedIn kind 0 []⟩)
  created_le : (Section.created (sections.map (·.id)) spliced).length ≤ 4

end Additions

namespace Instrumented.Built

variable {selection : Selection} {symbol : String} {bytes : Bytes} {sections spliced : List Section}
  {outline : Outline} {additions : Additions} {out : Instrumented}

theorem size_lt (h : Built selection symbol bytes sections outline additions spliced out)
    (hexports : out.exports.length < 2 ^ 32) (kind : SectionKind) :
    additions.size kind < 2 ^ 32 := by
  rw [h.exports] at hexports
  exact Additions.size_lt (Additions.listed_of_ofOutline h.added) hexports kind

/-- The first section of a kind, with what is added to it. -/
theorem receives (h : Built selection symbol bytes sections outline additions spliced out)
    (hexports : out.exports.length < 2 ^ 32) {kind : SectionKind} (hkind : kind ∈ Additions.targets)
    (hpos : 0 < additions.size kind) {i : Nat} (hfirst : Section.first? kind sections = some i) :
    ∃ s count old, sections[i]? = some s ∧ Leb128.size s.contents = some (count, old) ∧
      count + additions.size kind < 2 ^ 32 ∧
      (Section.kept (sections.map (·.id)) spliced)[i]? =
        some ⟨s.id, additions.countedIn kind count old⟩ := by
  have hsize := h.size_lt hexports
  have hlookup := Additions.lookup_of_pos hsize hkind hpos
  have hids : ∀ s ∈ sections, s.id ∈ sections.map (·.id) := fun s hs => List.mem_map_of_mem hs
  obtain ⟨s, contents, hs, hcontents, hkept⟩ := h.placed.receives hids hlookup hfirst
  have hid : s.id = kind.id := Section.id_of_first? hfirst hs
  obtain ⟨count, old, hold⟩ :=
    Outline.size_of_ofSections h.outlined (List.mem_of_getElem? hs) hid hkind
  obtain ⟨hlt, rfl⟩ := Entries.appendTo_eq_ok hold hcontents
  rw [Additions.count_entries (hsize kind)] at hlt hkept
  refine ⟨s, count, old, hs, hold, hlt, ?_⟩
  rw [hkept, Additions.countedIn, List.append_assoc]

/-- The new sections are those for the kinds that the input does not have. -/
theorem created_perm (h : Built selection symbol bytes sections outline additions spliced out)
    (hexports : out.exports.length < 2 ^ 32) :
    (Section.created (sections.map (·.id)) spliced).Perm
      ((Additions.targets.filter fun kind =>
        0 < additions.size kind && !(sections.map (·.id)).contains kind.id).map fun kind =>
          ⟨kind.id, additions.countedIn kind 0 []⟩) := by
  have hsize := h.size_lt hexports
  have hperm := h.created_perm_entries
  simp only [Additions.not_isEmpty_entries (hsize _), Entries.contents,
    Additions.count_entries (hsize _)] at hperm
  simpa only [Additions.countedIn, Nat.zero_add, List.append_nil] using hperm

end Instrumented.Built

/-- Whatever file is instrumented, the sections of the output are those of the input but for the
additions that its outline calls for. -/
theorem instrument_appends {selection : Selection} {symbol : String} {bytes : Bytes}
    {out : Instrumented} (h : instrument selection symbol bytes = .ok out)
    (hexports : out.exports.length < 2 ^ 32) :
    ∃ sections outline additions spliced, Section.readModule bytes = .ok sections ∧
      Outline.ofSections sections = .ok outline ∧
      Additions.ofOutline selection symbol outline = .ok additions ∧
      out.exports = additions.exports.toList ∧ Section.readModule out.bytes = .ok spliced ∧
      additions.Appended sections spliced := by
  obtain ⟨sections, outline, additions, spliced, hbuilt⟩ := built_of_instrument h
  refine ⟨sections, outline, additions, spliced, hbuilt.input, hbuilt.outlined, hbuilt.added,
    hbuilt.exports, hbuilt.read, ?_⟩
  have hids : ∀ s ∈ sections, s.id ∈ sections.map (·.id) := fun s hs => List.mem_map_of_mem hs
  have hcreated := hbuilt.created_perm hexports
  refine ⟨hbuilt.placed.ids_kept hids, ?_, ?_, hcreated, ?_⟩
  · intro kind hkind hpos i hfirst
    exact hbuilt.receives hexports hkind hpos hfirst
  · intro i hnot
    apply hbuilt.placed.verbatim hids
    intro kind hkind
    rw [Additions.targets_pending (hbuilt.size_lt hexports)] at hkind
    obtain ⟨htarget, hpos⟩ := List.mem_filter.1 hkind
    exact hnot kind htarget (of_decide_eq_true hpos)
  · rw [hcreated.length_eq, List.length_map]
    exact List.length_filter_le _ _

/-- A module with a custom and an unknown section, the exports before the types, two sections of
types, and counts that are written in more bytes than they need. It has no functions and no code. -/
def oddSections : List Section := [
  ⟨0, [1, 0x61, 0xff]⟩,
  ⟨7, [0x80, 0x00]⟩,
  ⟨0x40, [1, 2, 3]⟩,
  ⟨1, [0x81, 0x80, 0x00, 0x60, 0, 0]⟩,
  ⟨6, [1, 0x7e, 1, 0x42, 7, 0x0b]⟩,
  ⟨5, [1, 0, 1]⟩,
  ⟨1, [0]⟩]

theorem instrument_appends_odd : ∃ out,
    instrument .all "_" (Section.encodeModule oddSections) = .ok out ∧
    out.exports.length < 2 ^ 32 ∧
    ∃ sections outline additions spliced,
      Section.readModule (Section.encodeModule oddSections) = .ok sections ∧
      Outline.ofSections sections = .ok outline ∧
      Additions.ofOutline .all "_" outline = .ok additions ∧
      out.exports = additions.exports.toList ∧ Section.readModule out.bytes = .ok spliced ∧
      additions.Appended sections spliced := by
  have hfew : (instrument .all "_" (Section.encodeModule oddSections)).toOption.any
      (·.exports.length < 2 ^ 32) = true := by decide +kernel
  cases h : instrument .all "_" (Section.encodeModule oddSections) with
  | error e =>
    rw [h] at hfew
    cases hfew
  | ok out =>
    rw [h] at hfew
    have hexports : out.exports.length < 2 ^ 32 := by simpa [Except.toOption] using hfew
    exact ⟨out, rfl, hexports, instrument_appends h hexports⟩

end WasmSnapshot
