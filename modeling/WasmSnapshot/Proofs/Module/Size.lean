import WasmSnapshot.Proofs.Module.Sections

/-! How many items a file can hold. Each entry takes a byte or more, so a file of less than `2 ^ 32`
bytes has no more items than indices of 32 bits can tell apart, and room is left for the exports
that are added to them. -/

namespace WasmSnapshot

namespace Reader

variable {α β : Type} {r : Reader α} {f : α → Reader β}

/-- The reader takes at least `n` bytes. -/
structure Takes (n : Nat) (r : Reader α) : Prop where
  length_le {input rest : Bytes} {value : α} :
    r input = some (value, rest) → rest.length + n ≤ input.length

theorem takes_of_consuming [Consuming r] : Takes 1 r := ⟨Consuming.length_lt⟩

theorem takes_of_nonGrowing [NonGrowing r] : Takes 0 r := ⟨NonGrowing.length_le⟩

theorem Takes.bind {n k m : Nat} (hr : Takes n r) (hf : ∀ a, Takes k (f a)) (hm : m ≤ n + k) :
    Takes m (r >>= f) where
  length_le h := by
    obtain ⟨first, middle, hfirst, hrest⟩ := bind_eq_some h
    have := hr.length_le hfirst
    have := (hf first).length_le hrest
    omega

theorem Takes.map {n : Nat} (hr : Takes n r) (g : α → β) : Takes n (g <$> r) :=
  hr.bind (fun a => (takes_of_nonGrowing : Takes 0 (pure (g a) : Reader β))) (Nat.le_refl _)

theorem takes_peek : Takes 0 peek where
  length_le {input rest value} h := by
    cases input with
    | nil => cases h
    | cons b input => cases h; exact Nat.le_refl _

/-- As many entries as there are need at least as many bytes each. -/
theorem Takes.length_le_of_times {n k : Nat} (hr : Takes k r) {input rest : Bytes}
    {values : List α} (h : times r n input = some (values, rest)) :
    k * values.length + rest.length ≤ input.length := by
  induction n generalizing input values with
  | zero => cases h; simp
  | succ n ih =>
    obtain ⟨first, middle, others, hfirst, hothers, rfl⟩ := times_succ_eq_some h
    have := hr.length_le hfirst
    have := ih hothers
    rw [List.length_cons, Nat.mul_succ]
    omega

/-- The contents of a section are longer than its entries. -/
theorem Takes.length_lt_of_counted {k : Nat} (hr : Takes k r) {contents : Bytes} {values : List α}
    (h : (counted r).whole contents = some values) : k * values.length < contents.length := by
  obtain ⟨entries, hsize, htimes⟩ := counted_eq_some (whole_eq_some h)
  have := Consuming.length_lt hsize
  have := hr.length_le_of_times htimes
  omega

end Reader

open Reader

/-! ### Entries of the format -/

theorem HeapType.takes_read : Takes 1 HeapType.read where
  length_le {input rest value} h := by
    have habstract : Takes 1 HeapType.readAbstract := by
      unfold HeapType.readAbstract
      exact takes_of_consuming
    unfold HeapType.read at h
    split at h
    · cases h
    · next hsigned =>
      split at h
      · exact habstract.length_le h
      · split at h
        · cases h
          exact Consuming.length_lt hsigned
        · cases h

theorem RefType.takes_read : Takes 1 RefType.read := by
  have hheap (nullable : Bool) : Takes 1 (do pure (RefType.mk nullable (← HeapType.read))) :=
    HeapType.takes_read.bind (fun _ => takes_of_nonGrowing) (Nat.le_refl _)
  have hmarked (nullable : Bool) : Takes 1 (do
      let _marker ← byte
      pure (RefType.mk nullable (← HeapType.read))) :=
    takes_of_consuming.bind (fun _ => hheap nullable) (by omega)
  unfold RefType.read
  refine takes_peek.bind (k := 1) (fun code => ?_) (by omega)
  split
  · exact hmarked true
  · exact hmarked false
  · exact hheap true

theorem ValueType.takes_read : Takes 1 ValueType.read := by
  unfold ValueType.read
  refine takes_peek.bind (k := 1) (fun code => ?_) (by omega)
  split
  · exact takes_of_consuming
  · exact RefType.takes_read.map _

theorem GlobalType.takes_read : Takes 2 GlobalType.read := by
  unfold GlobalType.read
  exact ValueType.takes_read.bind (fun _ => takes_of_consuming) (by omega)

theorem Reader.takes_upTo {α : Type} (stop : UInt8) (item : Reader α) [Consuming item] :
    Takes 1 (upTo stop item) where
  length_le {input rest value} h := by
    induction input using upTo.induct stop item generalizing value with
    | case1 => rw [upTo] at h; cases h
    | case2 input => rw [upTo, if_pos rfl] at h; cases h; exact Nat.le_refl _
    | case3 b input hb hitem =>
      rw [upTo, if_neg hb] at h
      split at h
      · cases h
      · next hsome => rw [hitem] at hsome; cases hsome
    | case4 b input hb first middle hitem ih =>
      rw [upTo, if_neg hb] at h
      split at h
      · cases h
      · next hsome =>
        rw [hitem] at hsome
        cases hsome
        obtain ⟨⟨items, after⟩, hafter, heq⟩ := Option.map_eq_some_iff.1 h
        cases heq
        have := ih hafter
        have := Consuming.length_lt hitem
        omega

theorem Reader.Takes.taken {α : Type} {item : Reader α} {n : Nat} (h : Takes n item) :
    Takes n (taken item) where
  length_le {input rest value} htaken := by
    unfold Reader.taken at htaken
    split at htaken
    · next hitem =>
      cases htaken
      exact h.length_le hitem
    · cases htaken

theorem Global.takes_read : Takes 3 Global.read := by
  have hinit (type : GlobalType) :
      Takes 1 (do pure (Global.mk type (← taken (upTo Instr.endByte Operator.skip)))) :=
    (takes_upTo Instr.endByte Operator.skip).taken.bind (fun _ => takes_of_nonGrowing)
      (Nat.le_refl _)
  unfold Global.read
  exact GlobalType.takes_read.bind hinit (by omega)

instance : Consuming RefType.read := ⟨RefType.takes_read.length_le⟩

instance : Consuming ValueType.read := ⟨ValueType.takes_read.length_le⟩

instance : NonGrowing GlobalType.read := by
  unfold GlobalType.read
  infer_instance

instance : NonGrowing StorageType.read := by
  unfold StorageType.read
  refine ⟨(takes_peek.bind (k := 0) (m := 0) (fun code => ?_) (Nat.le_refl _)).length_le⟩
  split <;> exact takes_of_nonGrowing

instance : Consuming FieldType.read := by
  unfold FieldType.read
  have (flag : UInt8) (storage : StorageType) : NonGrowing (match flag with
      | 0 => (pure ⟨storage, false⟩ : Reader FieldType)
      | 1 => pure ⟨storage, true⟩
      | _ => failure) := by
    split <;> infer_instance
  refine ⟨(takes_of_nonGrowing.bind (k := 1) (m := 1) (fun storage => ?_) (by omega)).length_le⟩
  exact takes_of_consuming

instance : Consuming FuncType.read := by
  unfold FuncType.read
  infer_instance

theorem CompositeType.takes_read : Takes 2 CompositeType.read := by
  unfold CompositeType.read
  refine takes_of_consuming.bind (k := 1) (fun code => ?_) (by omega)
  split
  · exact takes_of_consuming
  · exact takes_of_consuming
  · exact takes_of_consuming
  · exact takes_of_consuming
  · exact ⟨fun h => by cases h⟩

theorem SubType.takes_readShared (supertypes : List Nat) :
    Takes 2 (SubType.readShared supertypes) := by
  have hplain (shared : Bool) :
      Takes 2 (do pure (SubType.mk supertypes shared (← CompositeType.read))) :=
    CompositeType.takes_read.bind (fun _ => takes_of_nonGrowing) (Nat.le_refl _)
  unfold SubType.readShared
  refine takes_peek.bind (k := 2) (fun code => ?_) (by omega)
  split
  · exact takes_of_consuming.bind (fun _ => hplain true) (by omega)
  · exact hplain false

instance : NonGrowing SubType.readSupertype := by
  unfold SubType.readSupertype
  infer_instance

theorem SubType.takes_read : Takes 2 SubType.read := by
  unfold SubType.read
  refine takes_peek.bind (k := 2) (fun code => ?_) (by omega)
  split
  · refine takes_of_consuming.bind (k := 2) (fun _ => ?_) (by omega)
    exact takes_of_nonGrowing.bind (fun supertypes => takes_readShared supertypes) (by omega)
  · exact takes_readShared []

/-- A group of types takes two bytes, and two more for each type. -/
theorem SubType.length_le_of_readGroup {input rest : Bytes} {group : List SubType}
    (h : readGroup input = some (group, rest)) :
    2 * group.length + rest.length ≤ input.length ∧ rest.length + 2 ≤ input.length := by
  unfold readGroup at h
  obtain ⟨code, middle, hpeek, h⟩ := bind_eq_some h
  have hmiddle := takes_peek.length_le hpeek
  split at h
  · obtain ⟨marker, entries, hmarker, h⟩ := bind_eq_some h
    unfold countedUpTo at h
    obtain ⟨count, after, hcount, h⟩ := bind_eq_some h
    obtain ⟨_, after', hguard, htimes⟩ := bind_eq_some h
    obtain ⟨-, rfl⟩ := guard_eq_some hguard
    have := Consuming.length_lt hmarker
    have := Consuming.length_lt hcount
    have := takes_read.length_le_of_times htimes
    omega
  · obtain ⟨type, after, htype, h⟩ := bind_eq_some h
    cases h
    have := takes_read.length_le htype
    rw [List.length_singleton]
    omega

theorem SubType.takes_readGroup : Takes 2 readGroup := ⟨fun h => (length_le_of_readGroup h).2⟩

theorem SubType.length_flatten_le {n : Nat} {input rest : Bytes} {groups : List (List SubType)}
    (h : times readGroup n input = some (groups, rest)) :
    2 * groups.flatten.length + rest.length ≤ input.length := by
  induction n generalizing input groups with
  | zero => cases h; simp
  | succ n ih =>
    obtain ⟨group, middle, others, hgroup, hothers, rfl⟩ := times_succ_eq_some h
    have := (length_le_of_readGroup hgroup).1
    have := ih hothers
    rw [List.flatten_cons, List.length_append]
    omega

/-- A section of types is longer than the list of its types, twice over. -/
theorem SubType.length_flatten_lt {contents : Bytes} {groups : List (List SubType)}
    (h : (counted readGroup).whole contents = some groups) :
    2 * groups.flatten.length < contents.length := by
  obtain ⟨entries, hsize, htimes⟩ := counted_eq_some (whole_eq_some h)
  have := Consuming.length_lt hsize
  have := length_flatten_le htimes
  omega

instance (width : Nat) (hasMax : Bool) : NonGrowing (Limits.read width hasMax) := by
  unfold Limits.read
  infer_instance

instance : NonGrowing TableType.read := by
  unfold TableType.read
  infer_instance

instance : NonGrowing MemoryType.read := by
  unfold MemoryType.read
  infer_instance

instance : NonGrowing ExternKind.read := by
  unfold ExternKind.read
  have (code : UInt8) : NonGrowing (match code with
      | 0 => (pure .func : Reader ExternKind)
      | 1 => pure .table
      | 2 => pure .memory
      | 3 => pure .global
      | 4 => pure .tag
      | _ => failure) := by
    split <;> infer_instance
  infer_instance

instance : NonGrowing ImportType.read := by
  unfold ImportType.read
  have (kind : ExternKind) : NonGrowing (match kind with
      | .func => ImportType.func <$> Leb128.index
      | .table => .table <$> TableType.read
      | .memory => .memory <$> MemoryType.read
      | .global => .global <$> GlobalType.read
      | .tag => do
        Reader.expect 0
        .tag <$> Leb128.index) := by
    cases kind <;> infer_instance
  infer_instance

instance : Consuming Name.read := by
  unfold Name.read
  have (name : Option String) : NonGrowing (match name with
      | some name => (pure name : Reader String)
      | none => failure) := by
    split <;> infer_instance
  infer_instance

instance : Consuming Import.read := by
  unfold Import.read
  infer_instance

instance : Consuming Outline.readOpaqueBody := by
  unfold Outline.readOpaqueBody
  infer_instance

/-! ### Entries of a file -/

namespace Section

theorem contentSize_cons (s : Section) (sections : List Section) :
    contentSize (s :: sections) = s.contents.length + contentSize sections := rfl

theorem contentSize_ofKind_le (kind : SectionKind) (sections : List Section) :
    contentSize (ofKind kind sections) ≤ contentSize sections := by
  induction sections with
  | nil => exact Nat.le_refl _
  | cons s sections ih =>
    rw [contentSize_cons]
    by_cases hid : s.id = kind.id
    · rw [ofKind_cons_self hid, contentSize_cons]
      omega
    · rw [ofKind_cons_ne hid]
      omega

/-- Sections of two kinds share no bytes. -/
theorem contentSize_ofKind_add_le {a b : SectionKind} (hne : a ≠ b) (sections : List Section) :
    contentSize (ofKind a sections) + contentSize (ofKind b sections) ≤ contentSize sections := by
  induction sections with
  | nil => exact Nat.le_refl _
  | cons s sections ih =>
    rw [contentSize_cons]
    by_cases ha : s.id = a.id
    · have hb : s.id ≠ b.id := fun hb => hne (SectionKind.id_injective (ha.symm.trans hb))
      rw [ofKind_cons_self ha, ofKind_cons_ne hb, contentSize_cons]
      omega
    · rw [ofKind_cons_ne ha]
      by_cases hb : s.id = b.id
      · rw [ofKind_cons_self hb, contentSize_cons]
        omega
      · rw [ofKind_cons_ne hb]
        omega

/-- The entries of a kind fit into the contents of its sections. -/
theorem length_le_contentSize {sections : List Section} {α : Type} {item : Reader α} {k : Nat}
    (hitem : Takes k item) {kind : SectionKind} {values : List α}
    (h : Module.entries? sections kind item = some values) :
    k * values.length ≤ contentSize (ofKind kind sections) := by
  have hparts (same : List Section) {parts : List (List α)}
      (hparts : (same.mapM fun s => (counted item).whole s.contents) = some parts) :
      k * parts.flatten.length ≤ contentSize same := by
    induction same generalizing parts with
    | nil =>
      cases hparts
      exact Nat.le_refl _
    | cons s same ih =>
      rw [List.mapM_cons] at hparts
      obtain ⟨part, hpart, hparts⟩ := Option.bind_eq_some_iff.1 hparts
      obtain ⟨others, hothers, hparts⟩ := Option.bind_eq_some_iff.1 hparts
      cases hparts
      have := hitem.length_lt_of_counted hpart
      have := ih hothers
      rw [contentSize_cons, List.flatten_cons, List.length_append, Nat.mul_add]
      omega
  obtain ⟨parts, hread, hvalues⟩ := Option.bind_eq_some_iff.1 h
  cases hvalues
  exact hparts _ hread

/-- A file of less than `2 ^ 32` bytes in which the sections of known kinds stand in order. -/
structure Framed (bytes : Bytes) (sections : List Section) : Prop where
  read : readModule bytes = .ok sections
  length_lt : bytes.length < 2 ^ 32
  ordered : Ordered sections

variable {bytes : Bytes} {sections : List Section}

theorem Framed.contentSize_lt (h : Framed bytes sections) :
    contentSize sections + 8 < 2 ^ 32 := by
  have := (of_readModule h.read).2
  have := h.length_lt
  omega

theorem Framed.length_functions_lt (h : Framed bytes sections) {functions : List UInt32}
    (hfunctions : Module.entries? sections .functions Leb128.index = some functions) :
    functions.length < 2 ^ 32 := by
  have := h.contentSize_lt
  have := length_le_contentSize takes_of_consuming hfunctions
  have := contentSize_ofKind_le .functions sections
  omega

/-- Imported globals and own ones all have indices. -/
theorem Framed.length_globals_lt (h : Framed bytes sections) {imports : List Import}
    {globals : List Global} (himports : Module.entries? sections .imports Import.read = some imports)
    (hglobals : Module.entries? sections .globals Global.read = some globals) :
    imports.length + 3 * globals.length < 2 ^ 32 := by
  have := h.contentSize_lt
  have := length_le_contentSize takes_of_consuming himports
  have := length_le_contentSize Global.takes_read hglobals
  have := contentSize_ofKind_add_le (show SectionKind.imports ≠ .globals by decide) sections
  omega

end Section

end WasmSnapshot
