import WasmSnapshot.Binary.Name

/-! The container of a binary module: a header, then sections up to the end of the file.

A section is kept as its id and its contents. Known ids have a kind, which gives the rank of the
section in the order that the format prescribes; custom sections and unknown ids have none. The
writer always produces the header of version 1 and the shortest length before each contents. -/

namespace WasmSnapshot

/-- The kinds of section that have a place in the order of the format. -/
inductive SectionKind where
  | types
  | imports
  | functions
  | tables
  | memories
  | tags
  | globals
  | exports
  | start
  | elements
  | dataCount
  | code
  | data
  deriving DecidableEq, Repr

namespace SectionKind

/-- The byte that marks a section of this kind. -/
def id : SectionKind → UInt8
  | types => 1
  | imports => 2
  | functions => 3
  | tables => 4
  | memories => 5
  | globals => 6
  | exports => 7
  | start => 8
  | elements => 9
  | code => 10
  | data => 11
  | dataCount => 12
  | tags => 13

/-- The kinds in the order in which their sections stand in a valid module. -/
def inOrder : List SectionKind :=
  [types, imports, functions, tables, memories, tags, globals, exports, start, elements,
    dataCount, code, data]

/-- The place of a section of this kind in the order of the format. -/
def rank (kind : SectionKind) : Nat := inOrder.idxOf kind

/-- The kind that a section's id stands for. -/
def ofId? (id : UInt8) : Option SectionKind := inOrder.find? (·.id = id)

/-- What the entries of a section of this kind are called in messages. -/
def label : SectionKind → String
  | types => "type"
  | imports => "import"
  | functions => "function"
  | tables => "table"
  | memories => "memory"
  | tags => "tag"
  | globals => "global"
  | exports => "export"
  | start => "start"
  | elements => "element"
  | dataCount => "data count"
  | code => "code"
  | data => "data"

end SectionKind

/-- A section: its id and the bytes after its length. -/
structure Section where
  id : UInt8
  contents : Bytes
  deriving DecidableEq, Repr

/-- What a header announces. -/
inductive Encoding where
  | core
  | component
  deriving DecidableEq, Repr

/-- The bytes that every binary module begins with. -/
def Encoding.magic : Bytes := [0x00, 0x61, 0x73, 0x6d]

/-- The first eight bytes of a file. The last two of them name the encoding; the two before are a
version that plays no part. -/
def Encoding.read : Reader Encoding := do
  guard ((← Reader.take 4) = magic)
  let _version ← Reader.take 2
  match ← Reader.take 2 with
  | [0, 0] => pure .core
  | [1, 0] => pure .component
  | _ => failure

namespace Section

/-- The kind of a section, if its id has one. -/
def kind? (s : Section) : Option SectionKind := SectionKind.ofId? s.id

/-- The id of custom sections. -/
def customId : UInt8 := 0

/-- A section: an id below 128, the length, the contents. -/
def read : Reader Section := do
  let id ← Reader.byte
  guard (id < 0x80)
  let contents ← Reader.take (← Leb128.size)
  pure { id, contents }

instance : Reader.Consuming read := by
  unfold read
  infer_instance

/-- Whether the length of a section can be written, which takes a number of 32 bits. -/
def fits (s : Section) : Bool := s.contents.length < UInt32.size

/-- The written form of a section. -/
def encode (s : Section) : Bytes :=
  s.id :: (Leb128.encode s.contents.length ++ s.contents)

/-- The header that every written module opens with. -/
def header : Bytes := Encoding.magic ++ [0x01, 0x00, 0x00, 0x00]

/-- The written form of a module with the given sections. -/
def encodeModule (sections : List Section) : Bytes :=
  header ++ sections.flatMap encode

end Section

end WasmSnapshot
