import Mathlib.Algebra.GroupWithZero.Nat
import WasmSnapshot.Host.Memory
import WasmSnapshot.Snapshot.Restore

/-! Memories byte by byte and word by word: what growing a memory and writing words to its front makes
of each byte, and the words that a memory holds. -/

namespace WasmSnapshot

theorem toNat_wordByte (word : UInt32) {k : Nat} (hk : k < 4) :
    (wordByte word k).toNat = word.toNat / 256 ^ k % 256 := by
  match k, hk with
  | 0, _ | 1, _ | 2, _ | 3, _ =>
    simp [wordByte, Nat.shiftRight_eq_div_pow]

/-- A word is made up of its four bytes. -/
theorem eq_of_wordByte {word other : UInt32} (h : ∀ k < 4, wordByte word k = wordByte other k) :
    word = other := by
  have hbyte (k : Nat) (hk : k < 4) : word.toNat / 256 ^ k % 256 = other.toNat / 256 ^ k % 256 := by
    rw [← toNat_wordByte word hk, ← toNat_wordByte other hk, h k hk]
  have h0 := hbyte 0 (by omega)
  have h1 := hbyte 1 (by omega)
  have h2 := hbyte 2 (by omega)
  have h3 := hbyte 3 (by omega)
  have := word.toNat_lt
  have := other.toNat_lt
  rw [← UInt32.toNat_inj]
  omega

theorem wordByte_littleEndian (b0 b1 b2 b3 : UInt8) {k : Nat} (hk : k < 4) :
    wordByte (UInt32.ofNat (Bytes.littleEndian [b0, b1, b2, b3])) k =
      [b0, b1, b2, b3][k] := by
  have h0 := b0.toNat_lt
  have h1 := b1.toNat_lt
  have h2 := b2.toNat_lt
  have h3 := b3.toNat_lt
  have hword : (UInt32.ofNat (Bytes.littleEndian [b0, b1, b2, b3])).toNat =
      b0.toNat + 256 * b1.toNat + 65536 * b2.toNat + 16777216 * b3.toNat := by
    rw [UInt32.toNat_ofNat']
    simp only [Bytes.littleEndian]
    omega
  rw [← UInt8.toNat_inj, toNat_wordByte _ hk, hword]
  match k, hk with
  | 0, _ | 1, _ | 2, _ | 3, _ =>
    simp only [List.getElem_cons_zero, List.getElem_cons_succ]
    omega

theorem Page.byteAt_zeros (i : Nat) : Page.zeros.byteAt i = 0 := by
  simp [Page.byteAt, Page.zeros]

theorem Page.byteAt_overlay (page : Page) (words : Array UInt32) (start i : Nat) :
    (page.overlay words start).byteAt i =
      match words[(start + i % pageSize) / 4]? with
      | some word => wordByte word ((start + i % pageSize) % 4)
      | none => page.byteAt i :=
  Vector.getElem_ofFn (Nat.mod_lt i (by decide))

namespace Memory

variable {memory grown : Memory} {words others : Array UInt32} {i : Nat}

theorem byteAt_of_size_le (h : memory.size ≤ i) : memory.byteAt i = 0 := by
  have hnone : memory.pages[i / pageSize]? = none := by
    rw [Array.getElem?_eq_none_iff]
    exact (Nat.le_div_iff_mul_le (by decide)).2 h
  rw [byteAt, hnone]

/-- A memory that has grown has zeros at its end. -/
theorem byteAt_grow? [Host] {added : Nat} (h : memory.grow? added = some grown) :
    grown.byteAt i = memory.byteAt i := by
  unfold grow? at h
  split at h
  · cases h
    simp only [byteAt]
    by_cases hold : i / pageSize < memory.pages.size
    · rw [Array.getElem?_append_left hold]
    · rw [Array.getElem?_append_right (Nat.le_of_not_lt hold), Array.getElem?_replicate,
        Array.getElem?_eq_none (Nat.le_of_not_lt hold)]
      by_cases hnew : i / pageSize - memory.pages.size < added
      · rw [if_pos hnew]
        exact Page.byteAt_zeros i
      · rw [if_neg hnew]
  · cases h

theorem max_of_grow? [Host] {added : Nat} (h : memory.grow? added = some grown) :
    grown.max = memory.max := by
  unfold grow? at h
  split at h
  · cases h
    rfl
  · cases h

theorem byteAt_overlay (hi : i < memory.size) : (memory.overlay words).byteAt i =
    match words[i / 4]? with
    | some word => wordByte word (i % 4)
    | none => memory.byteAt i := by
  have hlt : i / pageSize < memory.pages.size := (Nat.div_lt_iff_lt_mul (by decide)).2 hi
  have hsplit : i / pageSize * pageSize + i % pageSize = i := Nat.div_add_mod' i pageSize
  have hpage : (memory.overlay words).pages[i / pageSize]? =
      some (if i / pageSize * pageSize < 4 * words.size then
        memory.pages[i / pageSize].overlay words (i / pageSize * pageSize)
        else memory.pages[i / pageSize]) := by
    simp [overlay, hlt]
  rw [byteAt, hpage, byteAt, Array.getElem?_eq_getElem hlt]
  simp only
  split
  · have hbyte := Page.byteAt_overlay memory.pages[i / pageSize] words (i / pageSize * pageSize) i
    rwa [hsplit] at hbyte
  · next hpast =>
    have hnone : words[i / 4]? = none := Array.getElem?_eq_none (by omega)
    rw [hnone]

/-- The words are the contents of the memory, the lowest byte of each first. -/
structure HasWords (memory : Memory) (words : Array UInt32) : Prop where
  size : 4 * words.size = memory.size
  byteAt (i : Nat) (word : UInt32) : words[i]? = some word →
    ∀ k < 4, wordByte word k = memory.byteAt (4 * i + k)

theorem size_eq (memory : Memory) : memory.size = 4 * (16384 * memory.pages.size) := by
  rw [Memory.size, pageSize]
  omega

theorem hasWords_words (memory : Memory) : memory.HasWords memory.words where
  size := by
    have := memory.size_eq
    simp only [words, Array.size_ofFn]
    omega
  byteAt i word h k hk := by
    obtain ⟨hlt, rfl⟩ := Array.getElem?_eq_some_iff.1 h
    simp only [words, Array.getElem_ofFn, wordAt]
    rw [wordByte_littleEndian _ _ _ _ hk]
    match k, hk with
    | 0, _ | 1, _ | 2, _ | 3, _ => rfl

theorem HasWords.unique (h : memory.HasWords words) (h' : memory.HasWords others) :
    words = others := by
  have hsize : words.size = others.size := by
    have := h.size
    have := h'.size
    omega
  refine Array.ext hsize fun i hi hi' => eq_of_wordByte fun k hk => ?_
  rw [h.byteAt i _ (Array.getElem?_eq_getElem hi) k hk,
    h'.byteAt i _ (Array.getElem?_eq_getElem hi') k hk]

/-- What a memory holds takes as many pages as it has. -/
theorem HasWords.pagesFor_eq (h : memory.HasWords words) :
    Restore.pagesFor words.size = memory.pages.size := by
  have hsize := h.size
  rw [memory.size_eq] at hsize
  simp only [Restore.pagesFor, pageSize]
  omega

theorem byteAt_of_page {n k : Nat} (hn : n < memory.pages.size) (hk : k < pageSize) :
    memory.byteAt (n * pageSize + k) = memory.pages[n][k] := by
  have hdiv : (n * pageSize + k) / pageSize = n := by
    rw [Nat.mul_comm, Nat.mul_add_div (by decide), Nat.div_eq_of_lt hk, Nat.add_zero]
  have hmod : (n * pageSize + k) % pageSize = k := by
    rw [Nat.mul_comm, Nat.mul_add_mod, Nat.mod_eq_of_lt hk]
  rw [byteAt, hdiv, Array.getElem?_eq_getElem hn]
  simp only [Page.byteAt, Fin.getElem_fin, hmod]

theorem pages_eq {other : Memory} (hsize : memory.pages.size = other.pages.size)
    (hbytes : ∀ i, memory.byteAt i = other.byteAt i) : memory.pages = other.pages := by
  refine Array.ext hsize fun n hn hn' => Vector.ext fun k hk => ?_
  rw [← byteAt_of_page hn hk, ← byteAt_of_page hn' hk, hbytes]

/-- A memory is its bytes, and how large it may become. -/
theorem ext_byteAt {other : Memory} (hpages : memory.pages.size = other.pages.size)
    (hmax : memory.max = other.max) (hbytes : ∀ i, memory.byteAt i = other.byteAt i) :
    memory = other := by
  have heq := pages_eq hpages hbytes
  cases memory
  cases other
  cases heq
  cases hmax
  rfl

/-- A byte of a memory is the one of its word. -/
theorem HasWords.byteAt_eq (h : memory.HasWords words) (i : Nat) :
    memory.byteAt i = match words[i / 4]? with
      | some word => wordByte word (i % 4)
      | none => 0 := by
  have hsize := h.size
  by_cases hi : i < memory.size
  · have hget := Array.getElem?_eq_getElem (show i / 4 < words.size by omega)
    have hsplit : 4 * (i / 4) + i % 4 = i := Nat.div_add_mod i 4
    rw [hget]
    simp only
    rw [h.byteAt _ _ hget _ (Nat.mod_lt i (by decide)), hsplit]
  · have hnone : words[i / 4]? = none := Array.getElem?_eq_none (by omega)
    rw [hnone, byteAt_of_size_le (by omega)]

/-- Another memory has the same words if its pages are the same. -/
theorem HasWords.iff_pages_eq {other : Memory} (h : memory.HasWords words) :
    other.HasWords words ↔ other.pages = memory.pages := by
  constructor
  · intro h'
    have hsize := h.size
    have hsize' := h'.size
    rw [Memory.size_eq] at hsize hsize'
    refine pages_eq (by omega) fun i => ?_
    rw [h.byteAt_eq, h'.byteAt_eq]
  · intro hpages
    refine ⟨?_, fun i word hword k hk => ?_⟩
    · rw [h.size, Memory.size, Memory.size, hpages]
    · rw [h.byteAt i word hword k hk, Memory.byteAt, Memory.byteAt, hpages]

/-- A memory that is given the words that it holds stays as it is. -/
theorem HasWords.overlay_eq (h : memory.HasWords words) : memory.overlay words = memory := by
  have hsize : (memory.overlay words).size = memory.size := by simp [Memory.size, overlay]
  refine ext_byteAt (by simp [overlay]) rfl fun i => ?_
  by_cases hi : i < memory.size
  · have hword : i / 4 < words.size := by
      have := h.size
      omega
    rw [byteAt_overlay hi, h.byteAt_eq, Array.getElem?_eq_getElem hword]
  · rw [byteAt_of_size_le (by omega), byteAt_of_size_le (by omega)]

end Memory

end WasmSnapshot
