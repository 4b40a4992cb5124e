import NextFit.Pool.Basic

/-! # Taking a block

The search is next fit: it looks at every node of the ring once, starting behind the cursor, and
settles on the first block that is large enough. A block of exactly the right size leaves the
ring; a larger one stays and gives up its tail.
-/

namespace NextFit.Pool

variable {A : Type} [Arena A]

/-- What a search settled on. -/
structure Fit where
  /-- The node before the block. -/
  before : Nat
  block : Nat
  header : Header
  deriving Repr, DecidableEq

/-- Look at `current` and the nodes behind it, up to `start`. The node `before` leads to
    `current`. -/
def searchFrom (pool : Pool A) (units start : Nat) :
    (steps before current : Nat) → Except Fault (Option Fit)
  | 0, _, _ => throw .endlessList
  | steps + 1, before, current => do
      let header ← pool.header current
      if units ≤ header.size then return some { before, block := current, header }
      else if current = start then return none
      else pool.searchFrom units start steps current header.next

/-- The first block with enough units on a lap that starts behind `start`. -/
def search (pool : Pool A) (units start : Nat) : Except Fault (Option Fit) := do
  let first ← pool.header start
  pool.searchFrom units start Size.bound start first.next

/-- A search reads nothing but the headers of nodes. -/
theorem search_congr {B : Type} [Arena B] {pool : Pool A} {other : Pool B}
    (same : ∀ address, pool.header address = other.header address) (units start : Nat) :
    pool.search units start = other.search units start := by
  have walk : ∀ steps before current, pool.searchFrom units start steps before current =
      other.searchFrom units start steps before current := by
    intro steps
    induction steps with
    | zero => exact fun _ _ => rfl
    | succ steps ih =>
        intro before current
        simp only [searchFrom, same, ih]
  simp only [search, same, walk]

/-- Take the whole block out of the ring. -/
def unlink (fit : Fit) : Op (Pool A) Unit := do
  let previous ← Op.query (·.header fit.before)
  setHeader fit.before { previous with next := fit.header.next }

/-- Cut `units` units off the end of the block, and yield where they start. -/
def carveTail (units : Nat) (fit : Fit) : Op (Pool A) Nat := do
  let left : Header := { fit.header with size := fit.header.size - units }
  setHeader fit.block left
  let tail ← left.stop fit.block (Arena.unit A)
  inArena (Arena.store tail { size := units, next := sentinelAddress })
  Op.report (.split fit.block left.size units tail)
  return tail

/-- Take `units` units, one at least, from the first block that has them, and yield where they start.
    The next search starts behind the node before that block. `none` after a lap without success. -/
def take (units : Nat) : Op (Pool A) (Option Nat) := do
  Op.require (1 ≤ units) .noUnits
  let start ← useCursor
  match ← Op.query (·.search units start) with
  | none =>
      Op.report (.noFit units)
      return none
  | some fit =>
      if fit.header.size = units then
        Op.report (.exactFit units fit.block)
        unlink fit
        setCursor fit.before
        return some fit.block
      else
        let tail ← carveTail units fit
        setCursor fit.before
        return some tail

end NextFit.Pool
