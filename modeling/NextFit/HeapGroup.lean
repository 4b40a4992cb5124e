import NextFit.Heap.Basic
import NextFit.Arena.ProgramBreak
import NextFit.Arena.Segment

/-! # Groups of heaps

Heaps may draw on one source of memory: one segment that serves them all, or one program break that
they all move. Each heap of a group keeps its own free list, counts and configuration, and the part
of its arena that is its own; the rest of the arena is common to the group.
-/

namespace NextFit

/-- How an arena divides into a part that a group shares and a part of each heap's own. -/
structure Sharing (A S P : Type) where
  join : (common : S) → (own : P) → A
  common : A → S
  own : A → P

namespace Sharing

/-- Nothing is shared: each heap has an arena to itself. -/
def separate (A : Type) : Sharing A Unit A where
  join _ own := own
  common _ := ()
  own arena := arena

/-- All heaps work on the same arena. -/
def whole (A : Type) : Sharing A A Unit where
  join common _ := common
  common arena := arena
  own _ := ()

/-- All arenas move the same break, and each knows the range it got. -/
def programBreak : Sharing BreakArena ProgramBreak Window where
  join source window := { source, window }
  common arena := arena.source
  own arena := arena.window

end Sharing

/-- The heaps of a group, each over its own part of an arena, and the part they share. -/
structure HeapGroup (S P : Type) where
  common : S
  heaps : List (Heap P)

namespace HeapGroup

variable {A S P : Type}

/-- One heap of the group over its whole arena. -/
def heap? (sharing : Sharing A S P) (group : HeapGroup S P) (index : Nat) : Option (Heap A) :=
  group.heaps[index]?.map fun heap => heap.withArena (sharing.join group.common heap.arena)

/-- All heaps of the group over their whole arenas. -/
def toList (sharing : Sharing A S P) (group : HeapGroup S P) : List (Heap A) :=
  group.heaps.map fun heap => heap.withArena (sharing.join group.common heap.arena)

/-- Put a heap back at its place; the others see the part of its arena that they share. -/
def replace (sharing : Sharing A S P) (group : HeapGroup S P) (index : Nat) (heap : Heap A) :
    HeapGroup S P where
  common := sharing.common heap.arena
  heaps := group.heaps.set index (heap.withArena (sharing.own heap.arena))

/-- What is put back for one heap leaves the own part of every other as it was. -/
theorem heaps_replace_of_ne (sharing : Sharing A S P) (group : HeapGroup S P) {index other : Nat}
    (heap : Heap A) (h : index ≠ other) :
    (group.replace sharing index heap).heaps[other]? = group.heaps[other]? := by
  simp [replace, List.getElem?_set_ne h]

end HeapGroup

end NextFit
