import NextFit.Arena
import NextFit.FreeBlock

/-! # Pools of free blocks

A pool is an arena together with the free list that runs through it. The list is a ring in address
order: it starts at the sentinel, a node of size `0` at the reserved address `0` outside the arena,
and each header leads to the next free block until the last one leads back to the sentinel. A
cursor remembers where the next search starts.

Following links on a damaged list may go round for ever. A walk that took as many steps as there are
addresses has met one node twice without writing anything, so it has no end; it then stops with a
fault.
-/

namespace NextFit

/-- The part of a free list that lies outside the arena. -/
structure FreeList where
  sentinel : Header := .zero
  /-- Where the next search starts; there is none before the first use. -/
  cursor : Option Nat := none
  deriving Repr, DecidableEq

def sentinelAddress : Nat := 0

/-- An arena and its free list. -/
structure Pool (A : Type) where
  arena : A
  freeList : FreeList := {}

namespace Pool

variable {A α : Type}

def inArena (op : Op A α) : Op (Pool A) α :=
  op.on (·.arena) fun pool arena => { pool with arena }

/-- Remember where the next search starts. -/
def setCursor (address : Nat) : Op (Pool A) Unit :=
  Op.update fun pool => { pool with freeList.cursor := some address }

/-- Where the next search starts. The first use starts at the sentinel. -/
def useCursor : Op (Pool A) Nat := do
  let pool ← Op.state
  match pool.freeList.cursor with
  | some address => return address
  | none =>
      Op.report .sentinelCreated
      setCursor sentinelAddress
      return sentinelAddress

variable [Arena A]

/-- The header of a node of the ring. -/
def header (pool : Pool A) (address : Nat) : Except Fault Header :=
  if address = sentinelAddress then .ok pool.freeList.sentinel
  else Arena.load pool.arena address

/-- Replace the header of a node of the ring. -/
def setHeader (address : Nat) (header : Header) : Op (Pool A) Unit :=
  if address = sentinelAddress then
    Op.update fun pool => { pool with freeList.sentinel := header }
  else inArena (Arena.store address header)

/-- The blocks from `current` on, up to the sentinel. -/
def blocksFrom (pool : Pool A) : (steps current : Nat) → Except Fault (List FreeBlock)
  | 0, _ => throw .endlessList
  | steps + 1, current =>
      if current = sentinelAddress then return []
      else do
        let header ← pool.header current
        let rest ← pool.blocksFrom steps header.next
        return { address := current, size := header.size } :: rest

/-- All free blocks in list order. There are none before the first use. -/
def blocks (pool : Pool A) : Except Fault (List FreeBlock) :=
  match pool.freeList.cursor with
  | none => return []
  | some _ => pool.blocksFrom Size.bound pool.freeList.sentinel.next

@[simp] theorem header_sentinel (pool : Pool A) :
    pool.header sentinelAddress = .ok pool.freeList.sentinel :=
  rfl

theorem header_of_ne {pool : Pool A} {address : Nat} (h : address ≠ sentinelAddress) :
    pool.header address = Arena.load pool.arena address :=
  if_neg h

theorem blocks_of_unused {pool : Pool A} (h : pool.freeList.cursor = none) :
    pool.blocks = .ok [] := by
  simp only [blocks, h]
  rfl

end Pool

end NextFit
