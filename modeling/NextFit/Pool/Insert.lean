import NextFit.Pool.Basic

/-! # Giving a block back

A released block goes to its place in address order, and free blocks that touch become one. The
place is found by walking the ring from the cursor; it is either between two nodes, or behind the
highest node for a block above or below all of them.
-/

namespace NextFit.Pool

variable {A : Type} [Arena A]

/-- Whether a block belongs between a node and the node it leads to. The highest node leads down
    to the sentinel. -/
def Brackets (before block next : Nat) : Prop :=
  (before < block ∧ block < next) ∨ (next ≤ before ∧ (before < block ∨ block < next))

instance (before block next : Nat) : Decidable (Brackets before block next) :=
  inferInstanceAs (Decidable (_ ∨ _))

/-- Walk from a node to the first one that the block belongs behind. -/
def slotFrom (pool : Pool A) (block : Nat) : (steps before : Nat) → Except Fault Nat
  | 0, _ => throw .endlessList
  | steps + 1, before => do
      let header ← pool.header before
      if Brackets before block header.next then return before
      else pool.slotFrom block steps header.next

/-- The node that the block belongs behind. -/
def slot (pool : Pool A) (block start : Nat) : Except Fault Nat :=
  pool.slotFrom block Size.bound start

/-- The walk to a slot reads nothing but the headers of nodes. -/
theorem slot_congr {B : Type} [Arena B] {pool : Pool A} {other : Pool B}
    (same : ∀ address, pool.header address = other.header address) (block start : Nat) :
    pool.slot block start = other.slot block start := by
  have walk : ∀ steps before,
      pool.slotFrom block steps before = other.slotFrom block steps before := by
    intro steps
    induction steps with
    | zero => exact fun _ => rfl
    | succ steps ih =>
        intro before
        simp only [slotFrom, same, ih]
  exact walk _ _

/-- The header of a released block whose successor in the ring is `next`. If the block ends where
    its successor starts, it takes the successor in. -/
def absorbSuccessor (block : Nat) (released : Header) (next : Nat) : Op (Pool A) Header := do
  let stop ← released.stop block (Arena.unit A)
  if stop = next then
    let successor ← Op.query (·.header next)
    Op.report (.absorbedSuccessor block next)
    let size ← Size.add released.size successor.size
    return { size, next := successor.next }
  else return { released with next }

/-- Link a released block behind a node. If the node ends where the block starts, the node takes
    the block in. -/
def linkBehind (before : Nat) (previous : Header) (block : Nat) (released : Header) :
    Op (Pool A) Unit := do
  let stop ← previous.stop before (Arena.unit A)
  if stop = block then
    Op.report (.absorbedByPredecessor before block)
    let size ← Size.add previous.size released.size
    setHeader before { size, next := released.next }
  else
    inArena (Arena.store block released)
    setHeader before { previous with next := block }

/-- Put the block with the header at `block` back on the free list. The sentinel and the blocks that
    are on the list already are not taken. -/
def insert (block : Nat) : Op (Pool A) Unit := do
  Op.require (block ≠ sentinelAddress) .sentinelReleased
  let start ← useCursor
  let nodes ← Op.query blocks
  Op.require (∀ node ∈ nodes, node.address ≠ block) (.doubleFree block)
  let before ← Op.query (·.slot block start)
  let released ← Op.query fun pool => Arena.load pool.arena block
  let previous ← Op.query (·.header before)
  let joined ← absorbSuccessor block released previous.next
  linkBehind before previous block joined
  setCursor before

end NextFit.Pool
