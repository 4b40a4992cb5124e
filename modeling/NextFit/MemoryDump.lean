import NextFit.Heap.Basic
import NextFit.Arena.Segment
import NextFit.Text.Grouped

/-! # A small heap, byte by byte

A demonstration: two blocks are allocated side by side and filled, the bytes of the heap are shown,
and both blocks are given back.
-/

namespace NextFit.MemoryDump

/-- The bytes of the first block, and what they are filled with. -/
def first : Nat × UInt8 := (5, 0xAB)

/-- The bytes of the second block, and what they are filled with. -/
def second : Nat × UInt8 := (10, 0xCD)

/-- The bytes that both blocks take with their headers. -/
def shownBytes : Nat := 16 + 24

/-- A free list as pairs of an address in hexadecimal and a size, also in hexadecimal. -/
def showBlocks (blocks : List FreeBlock) : String :=
  let entries := blocks.map fun block => s!"({Hex.digits block.address}, {Hex.digits block.size})"
  "[" ++ ", ".intercalate entries ++ "]"

def allocateFilled (request : Nat × UInt8) : Op (Heap Segment) Nat := do
  let address ← Heap.allocateOrAbort request.1
  Heap.fill address request.2 request.1
  return address

/-- The lines that the demonstration prints. Every request extends the segment by just what it
    needs, so the blocks lie back to back from its base on. -/
def transcript : Op (Heap Segment) (List String) := do
  let a ← allocateFilled first
  let b ← allocateFilled second
  let heap ← Op.state
  let start ← Size.sub a Segment.unit
  let bytes ← heap.arena.readBytes start shownBytes
  let dump ← Hex.grouped bytes Segment.wordBytes
  Heap.deallocate a
  Heap.deallocate b
  let free ← Op.query Heap.freeBlocks
  return [
    "allocate a and fill with 0xAB",
    "allocate b and fill with 0xCD",
    s!"header size = {Segment.unit} bytes",
    s!"mem_a = {Hex.marked a}",
    s!"mem_b = {Hex.marked b}",
    s!"heap memory [{Hex.marked start}, {Hex.marked heap.arena.brk}):",
    dump,
    s!"free list after releasing both: {showBlocks free}"]

def heap : Heap Segment :=
  Heap.new Segment.default { minExtensionUnits := 0 }

def text : Except Failure String :=
  (transcript.run heap).result.map fun lines => String.join (lines.map (· ++ "\n"))

end NextFit.MemoryDump
