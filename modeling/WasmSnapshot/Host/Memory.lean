import WasmSnapshot.Module.Types

/-! Linear memories, as pages one after another, and as little-endian words.

A page that has not been written to is the one page of zeros, so a large memory takes no more room
than what was written to it. Bytes are counted from the front of the memory, and each has its place
in the page that its number divided by the page size tells. -/

namespace WasmSnapshot

/-- Byte `k` of a word, the lowest one being byte 0. -/
def wordByte (word : UInt32) (k : Nat) : UInt8 := (word >>> UInt32.ofNat (8 * k)).toUInt8

/-- The bytes of a word, the lowest first. -/
def wordBytes (word : UInt32) : Bytes := (List.range 4).map (wordByte word)

/-- The number of bytes in a page. -/
def pageSize : Nat := 65536

/-- The bytes of a page. -/
abbrev Page := Vector UInt8 pageSize

namespace Page

/-- A page of zeros. -/
def zeros : Page := Vector.replicate pageSize 0

/-- The byte of a page that stands at `i` in a row of pages. -/
def byteAt (page : Page) (i : Nat) : UInt8 :=
  page[Fin.mk (i % pageSize) (Nat.mod_lt i (by decide))]

/-- The page with `b` in place of the byte that stands at `i` in a row of pages. -/
def setByte (page : Page) (i : Nat) (b : UInt8) : Page :=
  page.set (i % pageSize) b (Nat.mod_lt i (by decide))

/-- The page that begins at byte `start` of a memory, with the given words at the front of that
memory. -/
def overlay (page : Page) (words : Array UInt32) (start : Nat) : Page :=
  Vector.ofFn fun i : Fin pageSize =>
    match words[(start + i) / 4]? with
    | some word => wordByte word ((start + i) % 4)
    | none => page[i]

end Page

/-- A linear memory. -/
structure Memory where
  pages : Array Page
  /-- The largest number of pages, if there is a limit below that of the host. -/
  max : Option Nat
  deriving DecidableEq, Repr

namespace Memory

/-- A memory of zeros. -/
def ofType (type : MemoryType) : Memory where
  pages := Array.replicate type.limits.min Page.zeros
  max := type.limits.max

/-- The number of bytes of a memory. -/
def size (memory : Memory) : Nat := memory.pages.size * pageSize

/-- The largest number of pages that the type of the memory allows. -/
def limit (memory : Memory) : Nat := min (memory.max.getD MemoryType.maxPages) MemoryType.maxPages

/-- Whether the memory has `count` bytes from `start` on. -/
def holds (memory : Memory) (start count : Nat) : Bool := start + count ≤ memory.size

/-- The byte at `i`, or zero past the end. -/
def byteAt (memory : Memory) (i : Nat) : UInt8 :=
  match memory.pages[i / pageSize]? with
  | some page => page.byteAt i
  | none => 0

/-- The memory with `b` at `i`. Nothing is written past the end. -/
def setByte (memory : Memory) (i : Nat) (b : UInt8) : Memory :=
  { memory with pages := memory.pages.modify (i / pageSize) (·.setByte i b) }

/-- The `count` bytes from `start` on, if the memory is as long. -/
def read? (memory : Memory) (start count : Nat) : Option Bytes :=
  if memory.holds start count then
    some ((List.range count).map fun i => memory.byteAt (start + i))
  else none

/-- The memory with the given bytes from `start` on. -/
def write (memory : Memory) (start : Nat) : Bytes → Memory
  | [] => memory
  | b :: rest => (memory.setByte start b).write (start + 1) rest

/-- The word of four bytes from `start` on, the lowest byte first. -/
def wordAt (memory : Memory) (start : Nat) : UInt32 :=
  let byte (i : Nat) : UInt8 := memory.byteAt (start + i)
  UInt32.ofNat (Bytes.littleEndian [byte 0, byte 1, byte 2, byte 3])

/-- The contents of a memory, word by word. -/
def words (memory : Memory) : Array UInt32 :=
  Array.ofFn fun i : Fin (memory.size / 4) => memory.wordAt (4 * i)

/-- The memory with the given words at its front. Nothing is written past the end. -/
def overlay (memory : Memory) (words : Array UInt32) : Memory :=
  { memory with
    pages := memory.pages.mapIdx fun n page =>
      if n * pageSize < 4 * words.size then page.overlay words (n * pageSize) else page }

end Memory

end WasmSnapshot
