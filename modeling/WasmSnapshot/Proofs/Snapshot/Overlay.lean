import WasmSnapshot.Proofs.Host.Memory
import WasmSnapshot.Snapshot.Basic

/-! Laying a snapshot over another one. What the upper one holds no value for stays as the lower one
has it. -/

namespace WasmSnapshot

/-- The number of words in a page. -/
def wordsPerPage : Nat := 16384

/-- The number of pages that so many words take up. -/
def pagesOfWords (words : Nat) : Nat := (words + (wordsPerPage - 1)) / wordsPerPage

/-- The words `words`, then the rest of `old`, then zeros up to the end of a page. -/
def overlayWords (old words : Array UInt32) : Array UInt32 :=
  Array.ofFn fun i : Fin (wordsPerPage * max (pagesOfWords old.size) (pagesOfWords words.size)) =>
    (words[i]?.or old[i]?).getD 0

namespace Snapshot

/-- The entries of `upper`, and where it has none those of `lower`. -/
def overlayEntries {α : Type} (lower upper : List (Option α)) (length : Nat) : List (Option α) :=
  (List.range length).map fun i => upper[i]?.join.or lower[i]?.join

/-- The entry at a position, of entries that begin at the position `first`. -/
def entryAt {α : Type} (first : Nat) : List (Option α) → Nat → Option α
  | [], _ => none
  | entry :: rest, i => if i = first then entry else entryAt (first + 1) rest i

/-- The snapshot `upper` over the snapshot `lower`. Only a table that records a function reaches past
the end of the lower one. -/
def overlay (lower upper : Snapshot) : Snapshot where
  memory :=
    match upper.memory with
    | none => lower.memory
    | some words => lower.memory.map (overlayWords · words)
  table := overlayEntries lower.table upper.table
    (if upper.table.any Option.isSome then max lower.table.length upper.table.length
      else lower.table.length)
  globals := overlayEntries lower.globals upper.globals lower.globals.length
  symbol := lower.symbol

variable {α : Type} {lower upper : List (Option α)} {length : Nat}

theorem entryAt_of_lt {first i : Nat} {entries : List (Option α)} (h : i < first) :
    entryAt first entries i = none := by
  induction entries generalizing first with
  | nil => rfl
  | cons entry entries ih =>
    rw [entryAt, if_neg (Nat.ne_of_lt h)]
    exact ih (Nat.lt_succ_of_lt h)

theorem entryAt_add (first : Nat) (entries : List (Option α)) (i : Nat) :
    entryAt first entries (first + i) = entries[i]?.join := by
  induction entries generalizing first i with
  | nil => rfl
  | cons entry entries ih =>
    rw [entryAt]
    cases i with
    | zero => simp
    | succ i =>
      rw [if_neg (by omega), show first + (i + 1) = first + 1 + i by omega, ih]
      simp

theorem length_overlayEntries : (overlayEntries lower upper length).length = length := by
  rw [overlayEntries, List.length_map, List.length_range]

theorem join_overlayEntries (lower upper : List (Option α)) {i : Nat} (h : i < length) :
    (overlayEntries lower upper length)[i]?.join = upper[i]?.join.or lower[i]?.join := by
  rw [overlayEntries, List.getElem?_map, List.getElem?_range h]
  rfl

theorem overlayEntries_eq_some {i : Nat} {v : α} :
    (overlayEntries lower upper length)[i]? = some (some v) ↔
      i < length ∧ (upper[i]?.join = some v ∨ upper[i]?.join = none ∧ lower[i]?.join = some v) := by
  rw [overlayEntries, List.getElem?_map]
  by_cases hi : i < length
  · rw [List.getElem?_range hi, Option.map_some, Option.some.injEq, Option.or_eq_some_iff]
    exact (and_iff_right hi).symm
  · rw [List.getElem?_eq_none (by rw [List.length_range]; omega), Option.map_none]
    exact ⟨by rintro ⟨⟩, fun h => absurd h.1 hi⟩

/-- Laying over hides what is below, if there are values above for all of it. -/
theorem overlayEntries_eq_iff : overlayEntries lower upper length = upper ↔
    upper.length = length ∧ ∀ i < length, upper[i]?.join = none → lower[i]?.join = none := by
  constructor
  · intro heq
    have hlength : upper.length = length := by rw [← heq, length_overlayEntries]
    refine ⟨hlength, fun i hi hnone => ?_⟩
    have hentry := join_overlayEntries lower upper hi
    rwa [heq, hnone, Option.none_or, eq_comm] at hentry
  · rintro ⟨hlength, hholes⟩
    refine List.ext_getElem (by rw [length_overlayEntries, hlength]) fun i hi hi' => ?_
    rw [length_overlayEntries] at hi
    have hentry := join_overlayEntries lower upper hi
    have hupper : upper[i]?.join.or lower[i]?.join = upper[i]?.join := by
      cases hjoin : upper[i]?.join with
      | none => rw [hholes i hi hjoin]; rfl
      | some value => rfl
    rw [hupper, List.getElem?_eq_getElem hi', List.getElem?_eq_getElem] at hentry
    exact hentry

end Snapshot

/-- Words hide the ones below, if they fill as many pages and these are whole. -/
theorem overlayWords_eq {old words : Array UInt32} (hle : old.size ≤ words.size)
    (hwhole : wordsPerPage ∣ words.size) : overlayWords old words = words := by
  obtain ⟨pages, hpages⟩ := hwhole
  have hsize : (overlayWords old words).size = words.size := by
    simp only [overlayWords, Array.size_ofFn, pagesOfWords, wordsPerPage] at hpages ⊢
    omega
  refine Array.ext hsize fun i hi hi' => ?_
  simp [overlayWords, hi']

namespace Memory

variable {memory after : Memory} {words old : Array UInt32}

/-- The memory `after` is `memory` with words written to its front, for which it grew as far as was
needed. -/
structure Overlaid (memory after : Memory) (words : Array UInt32) : Prop where
  pages : after.pages.size = Max.max memory.pages.size (Restore.pagesFor words.size)
  byteAt (i : Nat) : after.byteAt i =
    match words[i / 4]? with
    | some word => wordByte word (i % 4)
    | none => memory.byteAt i

/-- The memory `after` is `memory` with the recorded words written to its front, if there are any. -/
def Rewritten (memory : Memory) (recorded : Option (Array UInt32)) (after : Memory) : Prop :=
  match recorded with
  | none => after = memory
  | some words => memory.Overlaid after words

/-- The words of a memory after words were written to its front. -/
theorem Overlaid.hasWords (h : memory.Overlaid after words) (hold : memory.HasWords old) :
    after.HasWords (overlayWords old words) where
  size := by
    have hpages := h.pages
    have hsize := hold.size
    rw [memory.size_eq] at hsize
    simp only [after.size_eq, overlayWords, Array.size_ofFn, wordsPerPage, pagesOfWords]
    simp only [Restore.pagesFor, pageSize] at hpages
    omega
  byteAt i word hword k hk := by
    have hdiv : (4 * i + k) / 4 = i := by omega
    have hmod : (4 * i + k) % 4 = k := by omega
    obtain ⟨hlt, rfl⟩ := Array.getElem?_eq_some_iff.1 hword
    rw [h.byteAt, hdiv, hmod]
    simp only [overlayWords, Array.getElem_ofFn]
    cases hupper : words[i]? with
    | some word => rfl
    | none =>
      cases hlower : old[i]? with
      | some word => exact hold.byteAt i word hlower k hk
      | none =>
        have hsize := hold.size
        have hi := Array.getElem?_eq_none_iff.1 hlower
        rw [memory.byteAt_of_size_le (by omega)]
        simp [wordByte]

end Memory

end WasmSnapshot
