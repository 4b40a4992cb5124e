import NextFit.Heap.Config
import NextFit.Pool.Take
import NextFit.Pool.Insert
import NextFit.Rounding

/-! # Heaps

A heap serves requests for bytes from a pool, and extends its arena when no free block is large
enough. The address a client gets lies one unit behind the block's header, and giving the address
back puts the block on the free list again.
-/

namespace NextFit

/-- A pool, and what its heap was told and counts. -/
structure Heap (A : Type) where
  pool : Pool A
  config : HeapConfig := {}
  /-- The units that the arena granted so far. -/
  arenaUnits : Nat := 0
  /-- How often the arena granted some. -/
  extensions : Nat := 0

/-- A snapshot of what a heap counts. -/
structure HeapStats where
  arenaUnits : Nat
  freeUnits : Nat
  freeBlocks : Nat
  extensions : Nat
  deriving Repr, DecidableEq

namespace Heap

variable {A B α : Type}

/-- A heap that has asked its arena for nothing yet. -/
def new (arena : A) (config : HeapConfig := {}) : Heap A :=
  { pool := { arena }, config }

def arena (heap : Heap A) : A :=
  heap.pool.arena

def withArena (heap : Heap A) (arena : B) : Heap B :=
  { heap with pool := { heap.pool with arena } }

/-- Work on the pool alone. -/
def inPool (op : Op (Pool A) α) : Op (Heap A) α :=
  op.on (·.pool) fun heap pool => { heap with pool }

variable [Arena A]

def requestMemory (units bytes : Nat) : Op (Heap A) Nat :=
  (inPool (Pool.inArena (Arena.extend bytes))).reportRefusal (.extensionFailed units)

def countExtension (units : Nat) : Op (Heap A) Unit := do
  let heap ← Op.state
  let arenaUnits ← Size.add heap.arenaUnits units
  Op.update fun heap => { heap with arenaUnits }
  let extensions ← Size.add heap.extensions 1
  Op.update fun heap => { heap with extensions }

/-- Get at least `needed` units from the arena, and put them on the free list as one block. -/
def extend (needed : Nat) : Op (Heap A) Unit := do
  let heap ← Op.state
  let units := max needed heap.config.minExtensionUnits
  let some bytes := Size.mul? units (Arena.unit A)
    | Op.refuse (.outOfMemory Size.greatest)
  let base ← requestMemory units bytes
  Op.report (.extended units bytes base)
  countExtension units
  inPool (Pool.inArena (Arena.store base { size := units, next := base }))
  inPool (Pool.insert base)

/-- Take `units` units, extending the arena until a search finds them. Each extension counts at
    least one more unit, so before `rounds` runs out the count leaves the range of sizes. -/
def acquire (units : Nat) : (rounds : Nat) → Op (Heap A) Nat
  | 0 => Op.fault (.overflow .addition)
  | rounds + 1 => do
      match ← inPool (Pool.take units) with
      | some block => return block
      | none =>
          extend units
          acquire units rounds

/-- Yield an address with at least `size` bytes behind it. -/
def allocate (size : Nat) : Op (Heap A) Nat := do
  let wanted ← unitsFor size (Arena.unit A)
  let some units := wanted.filter fun units => (Size.mul? units (Arena.unit A)).isSome
    | Op.refuse (.sizeOverflow size)
  Op.report (.allocating size units)
  let block ← acquire units Size.bound
  Size.add block (Arena.unit A)

/-- Allocate, or end the process if the request is refused. Nothing that the call did outlives the
    process: the heap is as before the call, and there are no events. -/
def allocateOrAbort (size : Nat) : Op (Heap A) Nat := fun heap =>
  let outcome := allocate size heap
  match outcome.result with
  | .error (.refused reason) => Op.fail (.aborted size reason) heap
  | _ => outcome

/-- Give an address back. It has to be one that the heap allocated. -/
def deallocate (address : Nat) : Op (Heap A) Unit := do
  let block ← Size.sub address (Arena.unit A)
  let heap ← Op.state
  Op.require (Arena.contains heap.arena block (Arena.unit A)) (.foreignAddress address)
  Op.report (.deallocating address)
  inPool (Pool.insert block)

def fill (address : Nat) (value : UInt8) (count : Nat) : Op (Heap A) Unit := do
  let heap ← Op.state
  Op.require (Arena.contains heap.arena address count) .foreignFill
  inPool (Pool.inArena (Arena.fill address value count))

def freeBlocks (heap : Heap A) : Except Fault (List FreeBlock) :=
  heap.pool.blocks

def stats (heap : Heap A) : Except Fault HeapStats := do
  let blocks ← heap.freeBlocks
  let freeUnits ← Size.sum (blocks.map (·.size))
  return {
    arenaUnits := heap.arenaUnits
    freeUnits
    freeBlocks := blocks.length
    extensions := heap.extensions }

end Heap

end NextFit
