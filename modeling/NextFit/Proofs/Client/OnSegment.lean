import NextFit.Proofs.Arena.Segment
import NextFit.Proofs.Client

/-! # Clients of a segment

Behind every run over a segment, the heap accounts for what its client holds, and the segment still
has the base and the limit that it started with. The memory of a live allocation can be read: the
first word of its block is left to the heap, the second one tells the size, and the rest is the
payload.
-/

namespace NextFit.Client

variable {segment : Segment} {config : HeapConfig} {requests : List Request}

theorem exists_sound_within (permitted : (new segment config).PermitsAll requests) :
    ∃ ledger free, ((new segment config).run requests).Sound
      (Segment.KeepsWithin segment.brk segment) ledger free := by
  have start : (new segment config).Sound (Segment.KeepsWithin segment.brk segment) {} [] :=
    .new segment.keepsWithin_empty config
  obtain ⟨ledger, free, sound, -⟩ := start.run (Segment.laws_within _ _) permitted
  exact ⟨ledger, free, sound⟩

variable {client : Client Segment} {start : Nat} {ledger : Ledger} {free : List FreeBlock}
  {a : Allocation}

/-- What holds of a client of a segment behind every run. -/
def Orderly (client : Client Segment) : Prop :=
  ∃ start ledger free, client.Sound (Segment.Keeps start) ledger free

theorem orderly_run (permitted : (new segment config).PermitsAll requests) :
    ((new segment config).run requests).Orderly := by
  obtain ⟨ledger, free, sound⟩ := exists_sound_within permitted
  exact ⟨_, ledger, free, sound.recast (.refl _) sound.accounts.holds.keeps.toKeeps⟩

namespace Sound

/-- A segment can be read wherever a client holds memory. -/
theorem contains_block (h : client.Sound (Segment.Keeps start) ledger free)
    (held : a ∈ client.live) {address length : Nat} (low : (a.block Segment.unit).address ≤ address)
    (high : address + length ≤ (a.block Segment.unit).stop Segment.unit) :
    client.heap.arena.contains address length = true :=
  h.accounts.holds.keeps.contains_block (List.Subset.refl _) h.accounts.holds.wellFormed
    (Nat.succ_pos _)
    (h.accounts.cells_subset (List.mem_append_right _ (List.mem_map_of_mem held))) low high

/-- It can be read wherever a block is free, too. -/
theorem contains_free (h : client.Sound (Segment.Keeps start) ledger free) {b : FreeBlock}
    (mem : b ∈ free) {address length : Nat} (low : b.address ≤ address)
    (high : address + length ≤ b.stop Segment.unit) :
    client.heap.arena.contains address length = true := by
  have holds := h.accounts.holds
  have owned : b.cells Segment.unit ⊆ ledger.cells Segment.unit := fun _ cell =>
    holds.owned (FreeBlock.mem_allCells.2 ⟨b, mem, cell⟩)
  exact holds.keeps.contains_block (List.Subset.refl _) holds.wellFormed (holds.nonempty b mem)
    owned low high

/-- The size word is the second one of the block, and the payload is the rest. -/
theorem block_place {Keeps : Segment → Ledger → Prop} (h : client.Sound Keeps ledger free)
    (held : a ∈ client.live) :
    (a.block Segment.unit).address + Segment.wordBytes = a.address - Segment.wordBytes ∧
      a.address - Segment.wordBytes + Segment.wordBytes = a.address ∧
      (a.block Segment.unit).stop Segment.unit = a.address + a.room Segment.unit := by
  have behind : Segment.unit ≤ a.address := h.behind a held
  have place := Allocation.block_address behind
  have words : Segment.unit = Segment.wordBytes + Segment.wordBytes := rfl
  exact ⟨by omega, by omega, Allocation.block_stop behind⟩

/-- The size word tells how many units the block has. -/
theorem size_word (h : client.Sound (Segment.Keeps start) ledger free) (held : a ∈ client.live) :
    client.heap.arena.memory.readWord Segment.wordBytes (a.address - Segment.wordBytes) =
      a.units Segment.unit := by
  obtain ⟨next, known⟩ := h.accounts.header _ (List.mem_map_of_mem held)
  rw [← (h.block_place held).1]
  exact congrArg Header.size (h.accounts.holds.keeps.header _ _ known).2

/-- The size can be read. -/
theorem readWord_size (h : client.Sound (Segment.Keeps start) ledger free) (held : a ∈ client.live) :
    client.heap.arena.readWord (a.address - Segment.wordBytes) = .ok (a.units Segment.unit) := by
  obtain ⟨word, payload, stop⟩ := h.block_place held
  have inside : client.heap.arena.contains (a.address - Segment.wordBytes) Segment.wordBytes = true :=
    h.contains_block held (by omega) (by omega)
  rw [Segment.readWord, Segment.readBytes, if_pos inside, ← h.size_word held]
  rfl

end Sound

end NextFit.Client
