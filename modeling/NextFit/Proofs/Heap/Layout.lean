import Mathlib.Algebra.Order.Floor.Div
import NextFit.Heap.Basic
import NextFit.Region
import NextFit.Proofs.Pool.Take

/-! # Layouts

A layout is what a heap goes by: its free blocks, where the next search starts, what it was told and
what it counts. The bytes of the arena are no part of it. `Allocates` is the whole course of an
allocation in terms of a layout and of how the arena would reply to a request for memory. It leaves
nothing open, so heaps with the same layout whose arenas reply alike serve a request in the same way.
-/

namespace NextFit

structure Layout where
  free : List FreeBlock
  /-- Where the next search starts. -/
  start : Nat
  config : HeapConfig
  arenaUnits : Nat
  extensions : Nat

/-- The second arena is the first one, or what the first one leaves when it does not grow. -/
def Arena.Declined {A : Type} [Arena A] (arena arena' : A) : Prop :=
  arena' = arena ∨ ∃ bytes failure, (Arena.extend bytes).Yields arena (.error failure) arena'

namespace Heap

variable {A : Type}

/-- The layout of a heap with these free blocks. -/
def layout (heap : Heap A) (free : List FreeBlock) : Layout where
  free
  start := heap.pool.start
  config := heap.config
  arenaUnits := heap.arenaUnits
  extensions := heap.extensions

/-- The heap once its free list has been used. -/
def primed (heap : Heap A) : Heap A :=
  { heap with pool := heap.pool.withCursor heap.pool.start }

end Heap

namespace Layout

variable {unit units size : Nat} {reply : Nat → Except Failure Nat} {layout rest rest' : Layout}
  {result result' : Except Failure Nat} {granted granted' : List Region}

/-- Cut units off the first block on a lap that has them. -/
def take? (unit units : Nat) (layout : Layout) : Option (Nat × Layout) :=
  (FreeBlock.nextFit? units layout.start layout.free).map fun b =>
    ((b.tail unit units).address,
      { layout with
        free := FreeBlock.carve units b.address layout.free
        start := FreeBlock.below layout.free b.address })

/-- Put a block back. The next search starts behind the node below it. -/
def release (unit : Nat) (b : FreeBlock) (layout : Layout) : Layout :=
  { layout with
    free := FreeBlock.release unit b layout.free
    start := FreeBlock.below layout.free b.address }

/-- Count new memory and put it with the free blocks. -/
def grow (unit : Nat) (b : FreeBlock) (layout : Layout) : Layout :=
  { layout.release unit b with
    arenaUnits := layout.arenaUnits + b.size
    extensions := layout.extensions + 1 }

/-- How many units an extension asks for. -/
def demand (units : Nat) (layout : Layout) : Nat :=
  max units layout.config.minExtensionUnits

/-- How a search for units ends, with the layout behind it and the memory that was granted. -/
inductive Acquires (unit : Nat) (reply : Nat → Except Failure Nat) (units : Nat) (layout : Layout) :
    Except Failure Nat → Layout → List Region → Prop where
  /-- A free block has enough units. -/
  | found {block : Nat} {rest : Layout} :
      layout.take? unit units = some (block, rest) →
      Acquires unit reply units layout (.ok block) rest []
  /-- The extension would leave the range of sizes. -/
  | overlarge :
      layout.take? unit units = none →
      Size.bound ≤ layout.demand units * unit →
      Acquires unit reply units layout (.error (.refused (.outOfMemory Size.greatest))) layout []
  /-- The arena does not grow. -/
  | declined {failure : Failure} :
      layout.take? unit units = none →
      layout.demand units * unit < Size.bound →
      reply (layout.demand units * unit) = .error failure →
      Acquires unit reply units layout (.error failure) layout []
  /-- The new memory is merged with its neighbours, and then a block has enough units. -/
  | extended {base block : Nat} {rest : Layout} :
      layout.take? unit units = none →
      layout.demand units * unit < Size.bound →
      reply (layout.demand units * unit) = .ok base →
      (layout.grow unit { address := base, size := layout.demand units }).take? unit units =
        some (block, rest) →
      Acquires unit reply units layout (.ok block) rest
        [{ start := base, stop := base + layout.demand units * unit }]

/-- How an allocation of `size` bytes ends. -/
inductive Allocates (unit : Nat) (reply : Nat → Except Failure Nat) (size : Nat) (layout : Layout) :
    Except Failure Nat → Layout → List Region → Prop where
  /-- No block of so many units fits into the address space. -/
  | oversized :
      Size.bound ≤ (size ⌈/⌉ unit + 1) * unit →
      Allocates unit reply size layout (.error (.refused (.sizeOverflow size))) layout []
  /-- The client gets what lies behind the header. -/
  | served {result : Except Failure Nat} {rest : Layout} {granted : List Region} :
      (size ⌈/⌉ unit + 1) * unit < Size.bound →
      layout.Acquires unit reply (size ⌈/⌉ unit + 1) result rest granted →
      Allocates unit reply size layout (result.map (· + unit)) rest granted

theorem take?_eq_none_iff :
    layout.take? unit units = none ↔ ∀ b ∈ layout.free, b.size < units := by
  rw [take?, Option.map_eq_none_iff, FreeBlock.nextFit?_eq_none_iff]

/-- One extension is enough. -/
theorem Acquires.length_granted_le (h : layout.Acquires unit reply units result rest granted) :
    granted.length ≤ 1 := by
  cases h <;> simp

theorem Allocates.length_granted_le (h : layout.Allocates unit reply size result rest granted) :
    granted.length ≤ 1 := by
  cases h with
  | oversized => simp
  | served _ acquires => exact acquires.length_granted_le

theorem Acquires.refused {failure : Failure}
    (honest : ∀ bytes failure, reply bytes = .error failure → ∃ reason, failure = .refused reason)
    (h : layout.Acquires unit reply units (.error failure) rest granted) :
    ∃ reason, failure = .refused reason := by
  cases h with
  | overlarge => exact ⟨_, rfl⟩
  | declined _ _ answer => exact honest _ _ answer

/-- An allocation fails with a refusal, if that is how the arena fails. -/
theorem Allocates.refused {failure : Failure}
    (honest : ∀ bytes failure, reply bytes = .error failure → ∃ reason, failure = .refused reason)
    (h : layout.Allocates unit reply size (.error failure) rest granted) :
    ∃ reason, failure = .refused reason := by
  generalize ended : (.error failure : Except Failure Nat) = result at h
  cases h with
  | oversized =>
      cases ended
      exact ⟨_, rfl⟩
  | @served result _ _ _ acquires =>
      cases result with
      | ok block => cases ended
      | error failure =>
          cases ended
          exact acquires.refused honest

theorem Acquires.unique (h : layout.Acquires unit reply units result rest granted)
    (h' : layout.Acquires unit reply units result' rest' granted') :
    result = result' ∧ rest = rest' ∧ granted = granted' := by
  cases h with
  | found first => cases h' <;> simp_all
  | overlarge none large =>
      cases h' with
      | found first => simp_all
      | overlarge => exact ⟨rfl, rfl, rfl⟩
      | declined _ fits => omega
      | extended _ fits => omega
  | declined none fits answer =>
      cases h' with
      | overlarge _ large => omega
      | _ => simp_all
  | extended none fits answer second =>
      cases h' with
      | overlarge _ large => omega
      | _ => simp_all

theorem Allocates.unique (h : layout.Allocates unit reply size result rest granted)
    (h' : layout.Allocates unit reply size result' rest' granted') :
    result = result' ∧ rest = rest' ∧ granted = granted' := by
  cases h with
  | oversized large =>
      cases h' with
      | oversized => exact ⟨rfl, rfl, rfl⟩
      | served fits => omega
  | served fits acquires =>
      cases h' with
      | oversized large => omega
      | served _ acquires' =>
          obtain ⟨rfl, rfl, rfl⟩ := acquires.unique acquires'
          exact ⟨rfl, rfl, rfl⟩

end Layout

end NextFit
