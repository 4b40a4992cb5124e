import NextFit.Proofs.Arena.Segment
import NextFit.Proofs.Client.Recorded

/-! # What an allocation is worth

A client that is handed an address owns the block at it: the block consists of memory that the heap
obtained, it is large enough, and nobody else has a byte of it.
-/

namespace NextFit.Client

variable {A : Type} [Arena A] {arena : A} {config : HeapConfig} {requests : List Request}

theorem step_allocate {client : Client A} {size address : Nat}
    (given : (Heap.allocate size client.heap).result = .ok address) :
    client.step (.allocate size) =
      { heap := (Heap.allocate size client.heap).state
        live := { address, size } :: client.live } := by
  simp only [step, given]

/-- An allocation behind any run: the block lies in the memory that the heap obtained, has room for
    all bytes, sits on the grid of units of its region, and shares no byte with another live block or
    with a free one. -/
theorem allocate_private {size address : Nat} (lawful : Arena.Lawful arena)
    (permitted : (new arena config).PermitsAll requests)
    (given : (Heap.allocate size ((new arena config).run requests).heap).result = .ok address) :
    let block : FreeBlock :=
      { address := address - Arena.unit A, size := size ⌈/⌉ Arena.unit A + 1 }
    let regions := obtained arena config (requests ++ [.allocate size])
    Arena.unit A ≤ address ∧
    (∀ x ∈ block.span (Arena.unit A), ∃ region ∈ regions, x ∈ region) ∧
    address + size ≤ block.stop (Arena.unit A) ∧
    (∀ region ∈ regions, ∀ x ∈ block.span (Arena.unit A), x ∈ region →
      address % Arena.unit A = region.start % Arena.unit A) ∧
    (∀ other ∈ ((new arena config).run requests).blocks,
      FreeBlock.Disjoint (Arena.unit A) block other) ∧
    ∃ free, (Heap.allocate size ((new arena config).run requests).heap).state.freeBlocks = .ok free ∧
      ∀ other ∈ free, FreeBlock.Disjoint (Arena.unit A) block other := by
  intro block regions
  have more : (new arena config).PermitsAll (requests ++ [.allocate size]) :=
    permitsAll_append.2 ⟨permitted, trivial, trivial⟩
  obtain ⟨Keeps, ledger, free, laws, sound, same⟩ := exists_sound lawful more
  rw [run_append] at sound
  change (((new arena config).run requests).step (.allocate size)).Sound Keeps ledger free at sound
  rw [step_allocate given] at sound
  have accounts : Heap.Accounts Keeps _ ledger free
      (block :: ((new arena config).run requests).blocks) := sound.accounts
  have behind : Arena.unit A ≤ address := sound.behind { address, size } List.mem_cons_self
  have mem : block ∈ free ++ block :: ((new arena config).run requests).blocks := by simp
  have disjoint := accounts.pairwise_disjoint laws
  rw [List.pairwise_middle FreeBlock.Disjoint.symm] at disjoint
  have apart := (List.pairwise_cons.1 disjoint).1
  refine ⟨behind, ?_, ?_, ?_, ?_,
    free, sound.freeBlocks_eq laws, ?_⟩
  · intro x inside
    have owned := (accounts.occupied_iff laws).1 ⟨block, mem, inside⟩
    rwa [same] at owned
  · have behind : Arena.unit A ≤ (Allocation.mk address size).address := behind
    exact Allocation.payload_le laws.unit_pos behind
  · intro region granted x inBlock inRegion
    rw [← accounts.aligned laws mem (same ▸ granted) inBlock inRegion]
    exact Nat.mod_eq_sub_mod behind
  · exact fun other held => apart other (List.mem_append_right _ held)
  · exact fun other inFree => apart other (List.mem_append_left _ inFree)

/-- A block that was given back serves a smaller request; the rest of it stays free. -/
theorem allocate_private_reused :
    let client := new Segment.default { minExtensionUnits := 16 }
    let requests : List Request :=
      [.allocate 20, .allocate 9, .fill 0x10040050 255 16, .deallocate 0x10040068]
    client.PermitsAll requests ∧
      (Heap.allocate 3 (client.run requests).heap).result = .ok 0x10040078 ∧
      (∀ other ∈ (client.run requests).blocks,
        FreeBlock.Disjoint 8 { address := 0x10040070, size := 2 } other) ∧
      ∃ free, (Heap.allocate 3 (client.run requests).heap).state.freeBlocks = .ok free ∧
        ∀ other ∈ free, FreeBlock.Disjoint 8 { address := 0x10040070, size := 2 } other := by
  intro client requests
  have permitted : client.PermitsAll requests := by decide
  have given : (Heap.allocate 3 (client.run requests).heap).result = .ok 0x10040078 := by decide
  obtain ⟨-, -, -, -, others, free⟩ := allocate_private (Segment.lawful _) permitted given
  exact ⟨permitted, given, others, free⟩

end NextFit.Client
