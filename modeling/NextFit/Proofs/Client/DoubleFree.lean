import NextFit.Proofs.Client.Guards
import NextFit.Proofs.FreeBlock.Canonical

/-! # Giving an address back twice

An address that a client gave back is no longer its own, and to give it back once more is misuse. The
guard against this looks for a free block that starts where the block of the address does. It finds
one as long as the block has not been merged into a free block in front of it, and then nothing
happens. A block that was merged in this way is free and yet not on the list, and the guard lets it
pass.
-/

namespace NextFit

namespace Client

variable {segment : Segment} {config : HeapConfig} {requests more : List Request} {a : Allocation}

/-- An address that was handed out once and whose block is free now, to the last byte, is caught when
    it is given back again, and nothing changes. Only a block with a free byte in front of it is not
    caught: it has been merged into the free block there. -/
theorem doubleFree_iff_unmerged (permitted : (new segment config).PermitsAll (requests ++ more))
    (held : a ∈ ((new segment config).run requests).live) :
    let heap := ((new segment config).run (requests ++ more)).heap
    let block := a.block Segment.unit
    ∃ free, heap.freeBlocks = .ok free ∧
      ((∀ x ∈ block.span Segment.unit, FreeBlock.Occupied Segment.unit free x) →
        ((Heap.deallocate a.address heap).result = .error (.faulted (.doubleFree block.address)) ↔
          ¬ FreeBlock.Occupied Segment.unit free (block.address - 1)) ∧
        (¬ FreeBlock.Occupied Segment.unit free (block.address - 1) →
          (Heap.deallocate a.address heap).state = heap)) := by
  intro heap block
  obtain ⟨_, _, earlier⟩ := exists_sound_within (permitsAll_append.1 permitted).1
  obtain ⟨ledger, free, sound⟩ := exists_sound_within permitted
  have laws := Segment.laws_within segment.brk segment
  have holds := sound.accounts.holds
  refine ⟨free, sound.freeBlocks_eq laws, fun wholly => ?_⟩
  have positive : 0 < Segment.unit := by decide
  have nonempty : 0 < block.size := Nat.succ_pos _
  -- Some free block has the whole of this block within it, so the arena knows its header.
  obtain ⟨b, mem, low, high⟩ :=
    FreeBlock.exists_cover positive nonempty holds.separated wholly
  have header : block.address + Segment.unit ≤ block.stop Segment.unit :=
    Nat.add_le_add_left (Nat.le_mul_of_pos_left _ nonempty) _
  have known : Arena.contains heap.arena (a.address - Segment.unit) Segment.unit = true :=
    (sound.recast (.refl _) holds.keeps.toKeeps).contains_free mem low (Nat.le_trans header high)
  have inner : 0 < block.address :=
    Nat.lt_of_lt_of_le (Nat.pos_of_ne_zero (holds.address_pos laws mem)) low
  have used := holds.withCursor_start mem
  obtain ⟨caught, unchanged⟩ := Pool.insert_doubleFree_iff
    (Segment.avoids (.doubleFree block.address)) (Nat.ne_of_gt inner)
    (used.symm ▸ holds.blocks_eq laws)
  have starts : (∃ c ∈ free, c.address = block.address) ↔
      ¬ FreeBlock.Occupied Segment.unit free (block.address - 1) := by
    rw [FreeBlock.exists_start_iff positive holds.nonempty holds.separated inner]
    exact and_iff_right (wholly _ (FreeBlock.address_mem_span positive nonempty))
  obtain ⟨result, state⟩ := Heap.deallocate_of_known (earlier.behind a held) known
  constructor
  · rw [result, ← starts]
    exact caught
  · intro unmerged
    rw [state]
    exact congrArg (fun pool => { heap with pool }) ((unchanged (starts.2 unmerged)).trans used)

/-- A block that was merged with the one behind it is still the start of a free block. -/
theorem doubleFree_iff_unmerged_first :
    let client := new Segment.default { minExtensionUnits := 0 }
    let requests := [.allocate 8, .allocate 8]
    let more := [.deallocate 0x10040018, .deallocate 0x10040008]
    let heap := (client.run (requests ++ more)).heap
    heap.freeBlocks = .ok [{ address := 0x10040000, size := 4 }] ∧
      (Heap.deallocate 0x10040008 heap).result = .error (.faulted (.doubleFree 0x10040000)) ∧
      (Heap.deallocate 0x10040008 heap).state = heap := by
  intro client requests more heap
  have listed : heap.freeBlocks = .ok [{ address := 0x10040000, size := 4 }] := by decide
  have permitted : client.PermitsAll (requests ++ more) := by decide
  have held : { address := 0x10040008, size := 8 } ∈ (client.run requests).live := by decide
  obtain ⟨free, known, decided⟩ := doubleFree_iff_unmerged permitted held
  cases known.symm.trans listed
  obtain ⟨caught, unchanged⟩ := decided fun x inside =>
    ⟨_, List.mem_cons_self, inside.1, Nat.lt_of_lt_of_le inside.2 (by decide)⟩
  have unmerged :
      ¬ FreeBlock.Occupied Segment.unit [{ address := 0x10040000, size := 4 }] 0x1003ffff := by
    rintro ⟨b, mem, low, -⟩
    cases List.mem_singleton.1 mem
    exact absurd low (by decide)
  exact ⟨listed, caught.2 unmerged, unchanged unmerged⟩

/-- The block behind it is free as well, to the last byte. But the guard lets it pass, and it is linked
    although it lies within a free block. -/
theorem doubleFree_missed_after_merge :
    let client := new Segment.default { minExtensionUnits := 0 }
    let requests := [.allocate 8, .allocate 8]
    let more := [.deallocate 0x10040018, .deallocate 0x10040008]
    let heap := (client.run (requests ++ more)).heap
    let outcome := Heap.deallocate 0x10040018 heap
    let whole : FreeBlock := { address := 0x10040000, size := 4 }
    let block : FreeBlock := { address := 0x10040010, size := 2 }
    client.PermitsAll (requests ++ more) ∧
      { address := 0x10040018, size := 8 } ∈ (client.run requests).live ∧
      heap.freeBlocks = .ok [whole] ∧
      (∀ x ∈ block.span Segment.unit, FreeBlock.Occupied Segment.unit [whole] x) ∧
      outcome.result = .ok () ∧ outcome.state.freeBlocks = .ok [whole, block] ∧
      ¬ FreeBlock.Disjoint Segment.unit whole block := by
  refine ⟨by decide, by decide, by decide, ?_, by decide, by decide, by decide⟩
  intro x inside
  exact ⟨_, List.mem_cons_self, Nat.le_trans (by decide) inside.1,
    Nat.lt_of_lt_of_le inside.2 (by decide)⟩

end Client

end NextFit
