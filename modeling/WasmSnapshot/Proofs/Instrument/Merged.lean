import WasmSnapshot.Proofs.Binary.Forms

/-! Adding entries to a section as merging two lists of entries. The count of the old ones may stand in
any form that is read as a number of 32 bits. It is read by another reader than the one that took the
section, and is written anew, be it in fewer bytes or more; the entries themselves are copied. -/

namespace WasmSnapshot

open Reader

namespace Entries

variable {entries : Entries} {kind : SectionKind} {old oldEntries : Bytes} {n : Nat}

theorem appendTo_eq_tooMany_iff (hold : Leb128.size old = some (n, oldEntries)) :
    entries.appendTo kind old = .error (.tooManyEntries kind) ↔
      2 ^ 32 ≤ n + entries.count.toNat := by
  rw [appendTo_of_size hold]
  split
  · next hlt => exact iff_of_false nofun (Nat.not_le_of_lt hlt)
  · next hle => exact iff_of_true rfl (Nat.le_of_not_lt hle)

end Entries

/-- Adding entries merges two lists of entries. Whatever form the count of the old entries has, and
whatever bytes they are, the addition is refused if and only if 32 bits do not hold the sum. Otherwise
the sum stands in its shortest form before the old bytes and the new ones, and is read back from there.
So entries of any kind whose end is told by themselves are read as the old ones and then the new. -/
theorem merged_entries {entries : Entries} {kind : SectionKind} {form : Bytes} {count : Nat}
    (hform : Leb128.size form = some (count, [])) (oldEntries : Bytes) :
    Leb128.Form form count ∧ form.length ≤ 5 ∧
    (entries.appendTo kind (form ++ oldEntries) = .error (.tooManyEntries kind) ↔
      2 ^ 32 ≤ count + entries.count.toNat) ∧
    (count + entries.count.toNat < 2 ^ 32 → ∃ contents,
      entries.appendTo kind (form ++ oldEntries) = .ok contents ∧
      contents =
        Leb128.encode (count + entries.count.toNat) ++ (oldEntries ++ entries.bytes) ∧
      (∀ other, Leb128.Form other (count + entries.count.toNat) →
        other ≠ Leb128.encode (count + entries.count.toNat) →
        (Leb128.encode (count + entries.count.toNat)).length < other.length) ∧
      Leb128.size contents = some (count + entries.count.toNat, oldEntries ++ entries.bytes) ∧
      ∀ {α : Type} (item : Reader α) [Reader.Extensible item] {old new : List α},
        (Reader.times item count).whole oldEntries = some old →
        (Reader.times item entries.count.toNat).whole entries.bytes = some new →
        old.length = count ∧ new.length = entries.count.toNat ∧
        (Reader.counted item).whole contents = some (old ++ new)) := by
  have hold : Leb128.size (form ++ oldEntries) = some (count, oldEntries) :=
    Extensible.append hform oldEntries
  obtain ⟨taken, htaken, hnumber, -, hlength⟩ := Leb128.size_eq_some_iff.1 hform
  obtain rfl : form = taken := htaken.trans (List.append_nil taken)
  refine ⟨hnumber, hlength, Entries.appendTo_eq_tooMany_iff hold, fun hlt => ?_⟩
  refine ⟨_, (Entries.appendTo_of_size hold).trans (if_pos hlt), rfl, ?_,
    Leb128.size_encode hlt _, ?_⟩
  · intro other hother hne
    exact Nat.lt_of_not_le fun hle => hne (hother.eq_encode hle)
  · intro α item _ old new hfirst hsecond
    exact ⟨length_of_times (whole_eq_some hfirst), length_of_times (whole_eq_some hsecond),
      Entries.whole_counted_append hlt hfirst hsecond⟩

/-- A count of one, padded to five bytes, and 127 entries: the sum is the first one that takes two
bytes. -/
theorem merged_entries_padded : ∃ (entries : Entries) (contents : Bytes),
    Leb128.size [0x81, 0x80, 0x80, 0x80, 0x00] = some (1, []) ∧ entries.count = 127 ∧
    entries.appendTo .functions ([0x81, 0x80, 0x80, 0x80, 0x00] ++ [7]) = .ok contents ∧
    contents = [0x80, 0x01] ++ ([7] ++ entries.bytes) ∧
    Leb128.size contents = some (128, [7] ++ entries.bytes) ∧
    (Reader.counted Leb128.index).whole contents = some ([7] ++ List.replicate 127 300) := by
  have hform : Leb128.size [0x81, 0x80, 0x80, 0x80, 0x00] = some (1, []) := by decide
  have hreads : ∀ i ∈ List.replicate 127 (300 : UInt32),
      Reads Leb128.index (Instr.encodeIndex i) (id i) := fun i _ => Leb128.index_encode i
  have hnew := times_flatMap hreads []
  rw [List.append_nil, List.length_replicate, List.map_id] at hnew
  have hcount : (Entries.ofList Instr.encodeIndex (List.replicate 127 300)).count = 127 := by
    rw [Entries.ofList, List.length_replicate]
    rfl
  have hmerged := (@merged_entries (.ofList Instr.encodeIndex (List.replicate 127 300)) .functions
    _ _ hform [7]).2.2.2
  rw [hcount] at hmerged
  obtain ⟨contents, hcontents, hbytes, -, hsize, hread⟩ := hmerged (by decide)
  have hold : (times Leb128.index 1).whole [7] = some [7] := by decide
  obtain ⟨-, -, hwhole⟩ := hread Leb128.index hold (whole_of_eq_some hnew)
  have hencode : Leb128.encode (1 + (127 : UInt32).toNat) = [0x80, 0x01] := by decide +kernel
  rw [hencode] at hbytes
  exact ⟨_, contents, hform, hcount, hcontents, hbytes, hsize, hwhole⟩

end WasmSnapshot
