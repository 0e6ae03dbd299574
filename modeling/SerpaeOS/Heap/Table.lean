import SerpaeOS.Config
import SerpaeOS.Lib.Word
import Mathlib.Logic.Function.Basic
import Mathlib.Data.UInt

/-!
# The kernel heap

`heap.c` shares out blocks of 4096 bytes.  A table of one byte per block records which
blocks are taken, which of them starts an allocation and which has a successor in the
same allocation.  The table is a plain array: nothing stops a function from writing
outside it, so its memory is a function on all integer indices, and the indices written
are recorded.
-/

namespace SerpaeOS

open Word

/-- `HEAP_BLOCK_TABLE_ENTRY`. -/
abbrev Entry := UInt8

def entryTaken : Entry := 0x01
def entryFree : Entry := 0x00
def blockHasNext : Entry := 0b10000000
def blockIsFirst : Entry := 0b01000000

/-- `struct heap_table`. -/
structure HeapTable where
  /-- The memory of the table, indexed from its first entry. -/
  entries : ℤ → Entry
  total : ℕ
  /-- The indices written so far. -/
  written : List ℤ

/-- The assignment `table->entries[i] = e`. -/
def HeapTable.set (t : HeapTable) (i : ℤ) (e : Entry) : HeapTable :=
  { t with entries := Function.update t.entries i e, written := t.written ++ [i] }

/-- `struct heap`. -/
structure Heap where
  table : HeapTable
  /-- Start address of the heap data pool. -/
  saddr : Ptr

def heapValidateAlignment (ptr : Ptr) : Bool := ptr % heapBlockSize == 0

def heapValidateTable (ptr endPtr : Ptr) (table : HeapTable) : ℤ :=
  let tableSize := u32 (endPtr - ptr)
  let totalBlocks := tableSize / heapBlockSize
  if table.total ≠ totalBlocks then -einvarg else 0

/-- `heap_create`: the heap, with all entries of its table free, or the error code. -/
def heapCreate (ptr endPtr : Ptr) (table : HeapTable) : Except ℤ Heap :=
  if !heapValidateAlignment ptr || !heapValidateAlignment endPtr then .error (-einvarg)
  else
    let res := heapValidateTable ptr endPtr table
    if res < 0 then .error res
    else .ok
      { saddr := ptr
        table :=
          { entries := fun i => if 0 ≤ i ∧ i < table.total then entryFree else table.entries i
            total := table.total
            written := table.written ++ (List.range table.total).map Int.ofNat } }

def heapAlignValueToUpper (val : ℕ) : ℕ :=
  if val % heapBlockSize = 0 then val
  else (val - val % heapBlockSize + heapBlockSize) % 2 ^ 32

def heapGetEntryType (entry : Entry) : Entry := entry &&& 0x0f

/-- The `for` loop of `heap_get_start_block` with `k` entries still to come; `bs` is
`none` for the value `-1`. -/
def startBlockLoop (entries : ℤ → Entry) (totalBlocks : ℕ) :
    ℕ → ℕ → ℕ → Option ℕ → Option ℕ
  | 0, _, _, bs => bs
  | k + 1, i, bc, bs =>
    if heapGetEntryType (entries i) ≠ entryFree then
      startBlockLoop entries totalBlocks k (i + 1) 0 none
    else
      let bs := some (bs.getD i)
      let bc := bc + 1
      if bc = totalBlocks then bs else startBlockLoop entries totalBlocks k (i + 1) bc bs

/-- `heap_get_start_block`; `none` is the result `-ENOMEM`. -/
def heapGetStartBlock (heap : Heap) (totalBlocks : ℕ) : Option ℕ :=
  startBlockLoop heap.table.entries totalBlocks heap.table.total 0 0 none

def heapBlockToAddress (heap : Heap) (block : ℕ) : Ptr :=
  (heap.saddr + block * heapBlockSize) % 2 ^ 32

/-- The `for` loop of `heap_mark_blocks_taken` with `k` entries still to come. -/
def markTakenLoop (endBlock : ℤ) : ℕ → ℤ → Entry → HeapTable → HeapTable
  | 0, _, _, t => t
  | k + 1, i, entry, t =>
    let t := t.set i entry
    let entry := if i ≠ endBlock - 1 then entryTaken ||| blockHasNext else entryTaken
    markTakenLoop endBlock k (i + 1) entry t

def heapMarkBlocksTaken (heap : Heap) (startBlock totalBlocks : ℕ) : Heap :=
  let endBlock : ℤ := startBlock + totalBlocks - 1
  let entry := entryTaken ||| blockIsFirst
  let entry := if totalBlocks > 1 then entry ||| blockHasNext else entry
  { heap with table := markTakenLoop endBlock totalBlocks startBlock entry heap.table }

/-- `heap_malloc_blocks`: the heap afterwards and the address, `0` for no memory. -/
def heapMallocBlocks (heap : Heap) (totalBlocks : ℕ) : Heap × Ptr :=
  match heapGetStartBlock heap totalBlocks with
  | none => (heap, 0)
  | some startBlock =>
    (heapMarkBlocksTaken heap startBlock totalBlocks, heapBlockToAddress heap startBlock)

/-- The `for` loop of `heap_mark_blocks_free` with `k` entries still to come. -/
def markFreeLoop : ℕ → ℤ → HeapTable → HeapTable
  | 0, _, t => t
  | k + 1, i, t =>
    let entry := t.entries i
    let t := t.set i entryFree
    if entry &&& blockHasNext = 0 then t else markFreeLoop k (i + 1) t

def heapMarkBlocksFree (heap : Heap) (startingBlock : ℤ) : Heap :=
  { heap with
    table := markFreeLoop (heap.table.total - startingBlock).toNat startingBlock heap.table }

/-- `heap_address_to_block`: a signed division of the distance from the start. -/
def heapAddressToBlock (heap : Heap) (address : Ptr) : ℤ :=
  (i32 (address - heap.saddr)).tdiv heapBlockSize

def heapMalloc (heap : Heap) (size : ℕ) : Heap × Ptr :=
  let alignedSize := heapAlignValueToUpper size
  let totalBlocks := alignedSize / heapBlockSize
  heapMallocBlocks heap totalBlocks

def heapFree (heap : Heap) (ptr : Ptr) : Heap :=
  heapMarkBlocksFree heap (heapAddressToBlock heap ptr)

end SerpaeOS
