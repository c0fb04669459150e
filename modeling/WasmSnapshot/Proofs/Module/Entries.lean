import WasmSnapshot.Accessor.Function
import WasmSnapshot.Proofs.Binary.Section

/-! The entries that instrumentation adds, read back: signatures, type indices, bodies of accessor
functions and exports. -/

namespace WasmSnapshot

open Reader

/-- A signature is read as a group of one function type. -/
theorem Signature.reads_encode (signature : Signature) :
    Reads SubType.readGroup signature.encode [⟨[], false, .func signature.type⟩] := by
  intro more
  cases signature <;> rfl

theorem Instr.reads_encodeIndex (index : UInt32) :
    Reads Leb128.index (Instr.encodeIndex index) index := Leb128.index_encode index

namespace Leb128

/-- A number is not read as another one, however narrow the reader. -/
theorem readsAtMost_encode (width n : Nat) : ReadsAtMost (unsigned width) (encode n) n := by
  intro more read h
  obtain ⟨value, rest⟩ := read
  have hwide : n < 2 ^ (max width (n + 1)) :=
    Nat.lt_of_lt_of_le (Nat.lt_of_lt_of_le Nat.lt_two_pow_self
      (Nat.pow_le_pow_right (by omega) (Nat.le_succ n)))
      (Nat.pow_le_pow_right (by omega) (Nat.le_max_right _ _))
  have h' := unsigned_mono (Nat.le_max_left width (n + 1)) h
  rw [unsigned_encode hwide] at h'
  exact (Option.some.inj h').symm

end Leb128

theorem Name.fromUTF8?_toUTF8 (name : String) : String.fromUTF8? name.toUTF8 = some name :=
  dif_pos name.isValidUTF8

/-- A name is read as it was written, unless it is too long. -/
theorem Name.readsAtMost_encode (name : String) :
    ReadsAtMost Name.read (Name.encode name) name := by
  intro more result h
  unfold Name.read at h
  rw [Name.encode, List.append_assoc] at h
  obtain ⟨length, middle, hlength, h1⟩ := bind_eq_some h
  obtain ⟨_, middle', hguard, h2⟩ := bind_eq_some h1
  obtain ⟨bytes, after, hbytes, h3⟩ := bind_eq_some h2
  obtain ⟨-, rfl⟩ := guard_eq_some hguard
  cases Leb128.readsAtMost_encode 32 name.utf8ByteSize _ _ hlength
  have htake := take_append name.toUTF8.data.toList more
  rw [show name.toUTF8.data.toList.length = name.utf8ByteSize from rfl, hbytes] at htake
  cases htake
  rw [Array.toArray_toList, Name.fromUTF8?_toUTF8] at h3
  exact (Option.some.inj h3).symm

theorem ExternKind.read_cons (kind : ExternKind) (rest : Bytes) :
    ExternKind.read (kind.code :: rest) = some (kind, rest) := by
  cases kind <;> rfl

/-- An export is read as it was written, unless its name is too long. -/
theorem Export.readsAtMost_encode (e : Export) : ReadsAtMost Export.read e.encode e := by
  intro more result h
  unfold Export.read at h
  rw [Export.encode, List.append_assoc, List.cons_append] at h
  obtain ⟨name, middle, hname, h1⟩ := bind_eq_some h
  cases Name.readsAtMost_encode e.name _ _ hname
  rw [bind_of_eq_some (ExternKind.read_cons e.kind _),
    bind_of_eq_some (Instr.reads_encodeIndex e.index more)] at h1
  exact (Option.some.inj h1).symm

namespace Leb128

theorem length_encode_le {n k : Nat} (h : n < 128 ^ (k + 1)) : (encode n).length ≤ k + 1 := by
  induction k generalizing n with
  | zero => rw [encode, if_pos (by omega)]; simp
  | succ k ih =>
    rw [encode]
    split
    · simp
    · rw [List.length_cons]
      have := ih (n := n / 128) (by rw [Nat.pow_succ] at h; omega)
      omega

end Leb128

namespace Instr

theorem length_encodeIndex_le (index : UInt32) : (encodeIndex index).length ≤ 5 :=
  Leb128.length_encode_le (Nat.lt_trans index.toNat_lt (by decide))

/-- The instruction is read back from its written form, which takes at most six bytes and does not
begin like the end of an expression. -/
structure Readable (instr : Instr) : Prop where
  reads : Reads read instr.encode instr
  head : ∃ opcode rest, instr.encode = opcode :: rest ∧ opcode ≠ endByte
  length_le : instr.encode.length ≤ 6

theorem readable_of_index {instr : Instr} {opcode : UInt8} {make : UInt32 → Instr} {index : UInt32}
    (hread : readImmediates opcode = make <$> Leb128.index) (hmake : make index = instr)
    (hencode : instr.encode = opcode :: encodeIndex index) (hopcode : opcode ≠ endByte) :
    Readable instr := by
  refine ⟨fun more => ?_, ⟨opcode, _, hencode, hopcode⟩, ?_⟩
  · rw [hencode, List.cons_append, read, bind_of_eq_some (byte_cons _ _), hread,
      map_of_eq_some (reads_encodeIndex index more), hmake]
  · have := length_encodeIndex_le index
    rw [hencode, List.length_cons]
    omega

theorem readable_localGet (index : UInt32) : Readable (localGet index) :=
  readable_of_index rfl rfl rfl (by decide)

theorem readable_globalGet (index : UInt32) : Readable (globalGet index) :=
  readable_of_index rfl rfl rfl (by decide)

theorem readable_globalSet (index : UInt32) : Readable (globalSet index) :=
  readable_of_index rfl rfl rfl (by decide)

theorem encode_i64Const_32 : encode (i64Const 32) = [0x42, 0x20] := by decide +kernel

theorem readable_i64Const_32 : Readable (i64Const 32) := by
  refine ⟨fun more => ?_, ⟨_, _, encode_i64Const_32, by decide⟩, ?_⟩
  · rw [encode_i64Const_32]
    rfl
  · rw [encode_i64Const_32]
    decide

/-- Instructions without immediates. -/
theorem readable_of_opcode {instr : Instr} {opcode : UInt8}
    (hread : readImmediates opcode = pure instr) (hencode : instr.encode = [opcode])
    (hopcode : opcode ≠ endByte) : Readable instr := by
  refine ⟨fun more => ?_, ⟨opcode, [], hencode, hopcode⟩, by rw [hencode]; simp⟩
  rw [hencode, List.singleton_append, read, bind_of_eq_some (byte_cons _ _), hread]
  rfl

theorem reads_encodeExpr {code : List Instr} (h : ∀ instr ∈ code, Readable instr) :
    Reads readExpr (encodeExpr code) code := by
  intro more
  induction code with
  | nil => rw [encodeExpr, List.flatMap_nil, List.nil_append, List.singleton_append, readExpr, upTo,
      if_pos rfl]
  | cons instr code ih =>
    obtain ⟨opcode, rest, hencode, hopcode⟩ := (h instr (by simp)).head
    have hread := (h instr (by simp)).reads (encodeExpr code ++ more)
    have hrest := ih fun other hother => h other (by simp [hother])
    have hbytes : encodeExpr (instr :: code) ++ more = instr.encode ++ (encodeExpr code ++ more) := by
      simp [encodeExpr]
    rw [readExpr] at hrest ⊢
    rw [hbytes]
    rw [hencode, List.cons_append] at hread ⊢
    rw [upTo, if_neg hopcode]
    split
    · next hnone => rw [hread] at hnone; cases hnone
    · next hsome =>
      rw [hread] at hsome
      cases hsome
      rw [hrest]
      rfl

/-- The contents of a body give back its code. -/
theorem whole_readCode {code : List Instr} (h : ∀ instr ∈ code, Readable instr) :
    readCode.whole (0x00 :: encodeExpr code) = some code := by
  refine whole_of_eq_some ?_
  have hexpr := reads_encodeExpr h []
  rw [List.append_nil] at hexpr
  rw [readCode, bind_of_eq_some (show Leb128.size (0x00 :: encodeExpr code) =
      some (0, encodeExpr code) from rfl), bind_of_eq_some (guard_of rfl _), hexpr]

theorem length_encodeExpr_le {code : List Instr} (h : ∀ instr ∈ code, Readable instr) :
    (encodeExpr code).length ≤ 6 * code.length + 1 := by
  induction code with
  | nil => simp [encodeExpr]
  | cons instr code ih =>
    have hinstr := (h instr (by simp)).length_le
    have hcode := ih fun other hother => h other (by simp [hother])
    simp only [encodeExpr, List.flatMap_cons, List.length_append, List.length_cons,
      List.length_nil] at hcode ⊢
    omega

end Instr

/-! ### Accessor functions -/

instance : Extensible Outline.readOpaqueBody := by
  unfold Outline.readOpaqueBody
  infer_instance

namespace AccessorFunction

/-- The function can be written and read back. -/
structure Readable (function : AccessorFunction) : Prop where
  instr : ∀ instr ∈ function.code, instr.Readable
  length_le : function.code.length ≤ 8

/-- The contents of the entry of the code section. -/
def body (function : AccessorFunction) : Bytes := 0x00 :: Instr.encodeExpr function.code

theorem encodeBody_eq (function : AccessorFunction) :
    Instr.encodeBody function.code = Leb128.encode function.body.length ++ function.body := rfl

variable {function : AccessorFunction}

theorem Readable.length_body (h : function.Readable) : function.body.length < 2 ^ 32 := by
  have := Instr.length_encodeExpr_le h.instr
  have := h.length_le
  rw [body, List.length_cons]
  omega

theorem reads_opaqueBody (h : function.body.length < 2 ^ 32) :
    Reads Outline.readOpaqueBody (Instr.encodeBody function.code) function.body := by
  intro more
  rw [encodeBody_eq, List.append_assoc, Outline.readOpaqueBody,
    bind_of_eq_some (Leb128.size_encode h _)]
  exact take_append _ _

theorem Readable.reads_opaqueBody (h : function.Readable) :
    Reads Outline.readOpaqueBody (Instr.encodeBody function.code) function.body :=
  AccessorFunction.reads_opaqueBody h.length_body

theorem Readable.reads_body (h : function.Readable) :
    Reads Instr.readBody (Instr.encodeBody function.code) function.code := by
  intro more
  rw [encodeBody_eq, List.append_assoc, Instr.readBody, sized,
    bind_of_eq_some (Leb128.size_encode h.length_body _), bind_of_eq_some (take_append _ _), body,
    Instr.whole_readCode h.instr]
  rfl

end AccessorFunction

theorem IntType.readable_of_mem {type : IntType} {index : UInt32} {function : AccessorFunction}
    (h : function ∈ type.accessorFunctions index) : function.Readable := by
  have hget := Instr.readable_globalGet index
  have hset := Instr.readable_globalSet index
  have hlocal := Instr.readable_localGet
  have hconst := Instr.readable_i64Const_32
  have hor : Instr.Readable .i64Or := Instr.readable_of_opcode rfl rfl (by decide)
  have hshl : Instr.Readable .i64Shl := Instr.readable_of_opcode rfl rfl (by decide)
  have hshr : Instr.Readable .i64ShrU := Instr.readable_of_opcode rfl rfl (by decide)
  have hwrap : Instr.Readable .i32WrapI64 := Instr.readable_of_opcode rfl rfl (by decide)
  have hextend : Instr.Readable .i64ExtendI32U := Instr.readable_of_opcode rfl rfl (by decide)
  cases type <;> simp only [accessorFunctions, List.mem_cons, List.not_mem_nil, or_false] at h
  · rcases h with rfl | rfl <;> constructor <;> simp_all
  · rcases h with rfl | rfl | rfl <;> constructor <;> simp_all

theorem IntType.global?_of_mem {type : IntType} {index : UInt32} {function : AccessorFunction}
    (h : function ∈ type.accessorFunctions index) : function.accessor.global? = some index := by
  cases type <;> simp only [accessorFunctions, List.mem_cons, List.not_mem_nil, or_false] at h
  · rcases h with rfl | rfl <;> rfl
  · rcases h with rfl | rfl | rfl <;> rfl

end WasmSnapshot
