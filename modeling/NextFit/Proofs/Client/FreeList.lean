import NextFit.Proofs.Arena.Segment
import NextFit.Proofs.Client.Recorded

/-! # The free list behind a run

Before its first use a free list is empty. From then on its links run from the sentinel through
blocks in address order and back, and the cursor is on this ring. The blocks never touch: two that
did would be one.
-/

namespace NextFit.Client

variable {A : Type} [Arena A] {arena : A} {config : HeapConfig} {requests : List Request}

theorem free_list_ring (lawful : Arena.Lawful arena)
    (permitted : (new arena config).PermitsAll requests) :
    let heap := ((new arena config).run requests).heap
    let list := heap.pool.freeList
    (list.cursor = none → heap.freeBlocks = .ok []) ∧
    ∀ cursor, list.cursor = some cursor → ∃ blocks,
      heap.freeBlocks = .ok blocks ∧ heap.pool.Links list.sentinel.next blocks ∧
      list.sentinel.size = 0 ∧
      (∀ b ∈ blocks, b.address ≠ sentinelAddress ∧ 1 ≤ b.size) ∧
      blocks.Pairwise (·.address < ·.address) ∧
      blocks.Pairwise (·.stop (Arena.unit A) < ·.address) ∧
      (cursor = sentinelAddress ∨ ∃ b ∈ blocks, b.address = cursor) := by
  intro heap list
  obtain ⟨Keeps, ledger, free, laws, sound, -⟩ := exists_sound lawful permitted
  have holds := sound.accounts.holds
  have ring := holds.ring laws
  refine ⟨?_, fun cursor used => ⟨free, ?_⟩⟩
  · intro unused
    rw [sound.freeBlocks_eq laws, holds.unused unused]
  · refine ⟨sound.freeBlocks_eq laws, ring.links, ring.sentinel, ?_, ring.ascending,
      holds.separated, ?_⟩
    · intro b mem
      exact ⟨holds.address_pos laws mem, holds.nonempty b mem⟩
    · have node := holds.node
      rwa [Pool.start, show _ = some cursor from used] at node

theorem free_list_ring_split :
    (new Segment.default { minExtensionUnits := 16 }).PermitsAll
        [.allocate 20, .allocate 9, .fill 0x10040050 255 16, .deallocate 0x10040068] ∧
      ∃ blocks, ((new Segment.default { minExtensionUnits := 16 }).run
          [.allocate 20, .allocate 9, .fill 0x10040050 255 16, .deallocate 0x10040068]).heap.freeBlocks = .ok blocks ∧
        blocks.Pairwise (·.stop 8 < ·.address) := by
  have permitted : (new Segment.default { minExtensionUnits := 16 }).PermitsAll
      [.allocate 20, .allocate 9, .fill 0x10040050 255 16, .deallocate 0x10040068] := by decide
  have used : ((new Segment.default { minExtensionUnits := 16 }).run
      [.allocate 20, .allocate 9, .fill 0x10040050 255 16, .deallocate 0x10040068]).heap.pool.freeList.cursor =
        some 0x10040000 := by decide
  obtain ⟨-, ring⟩ := free_list_ring (Segment.lawful _) permitted
  obtain ⟨blocks, listed, -, -, -, -, apart, -⟩ := ring _ used
  exact ⟨permitted, blocks, listed, apart⟩

end NextFit.Client
