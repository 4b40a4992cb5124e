import NextFit.Proofs.Arena.Segment
import NextFit.Proofs.Client.Recorded

/-! # No unit is lost

What a heap obtained is what its client holds and what is free, unit by unit. The counts of the heap
say the same in numbers.
-/

namespace NextFit.Client

variable {A : Type} [Arena A] {arena : A} {config : HeapConfig} {requests : List Request}

/-- The regions are what the client holds and what is free: each unit is in one block, no two blocks
    share a byte, free blocks do not touch, and the counts add up. -/
structure Divides (client : Client A) (regions : List Region) (free : List FreeBlock) : Prop where
  freeBlocks : client.heap.freeBlocks = .ok free
  nonempty : ∀ b ∈ free ++ client.blocks, 1 ≤ b.size
  separated : free.Pairwise (·.stop (Arena.unit A) < ·.address)
  units : ∀ region ∈ regions, ∃ n, region.stop = region.start + n * Arena.unit A ∧
    ∀ k < n, (free ++ client.blocks).countP (fun b =>
      b.address ≤ region.start + k * Arena.unit A ∧
        region.start + k * Arena.unit A + Arena.unit A ≤ b.stop (Arena.unit A)) = 1
  disjoint : (free ++ client.blocks).Pairwise (FreeBlock.Disjoint (Arena.unit A))
  occupied : ∀ x, FreeBlock.Occupied (Arena.unit A) (free ++ client.blocks) x ↔
    ∃ region ∈ regions, x ∈ region
  stats : ∃ stats, client.heap.stats = .ok stats ∧
    stats.arenaUnits = (regions.map fun r => (r.stop - r.start) / Arena.unit A).sum ∧
    stats.extensions = regions.length ∧ stats.freeBlocks = free.length ∧
    stats.freeUnits + (client.live.map (·.size ⌈/⌉ Arena.unit A + 1)).sum = stats.arenaUnits

theorem Sound.divides {Keeps : A → Ledger → Prop} {client : Client A} {ledger : Ledger}
    {free : List FreeBlock} (laws : Arena.Laws Keeps) (h : client.Sound Keeps ledger free) :
    client.Divides ledger.regions free := by
  have accounts := h.accounts
  have disjoint := accounts.pairwise_disjoint laws
  constructor
  case freeBlocks => exact h.freeBlocks_eq laws
  case nonempty => exact accounts.block_nonempty
  case separated => exact accounts.holds.separated
  case units =>
    intro region mem
    obtain ⟨n, -, ends⟩ := accounts.holds.wellFormed.whole region mem
    refine ⟨n, ends, ?_⟩
    intro k less
    apply accounts.tile.countP_eq_one laws.unit_pos disjoint
    exact Ledger.unit_mem_cells laws.unit_pos mem ends less
  case disjoint => exact disjoint
  case occupied => exact fun _ => accounts.occupied_iff laws
  case stats =>
    refine ⟨_, h.stats_eq laws, ?_, accounts.extensions, rfl, h.units_eq⟩
    apply accounts.arenaUnits.trans
    rw [Ledger.units, FreeBlock.units_eq_sum, List.map_map]
    rfl

/-- Behind every run, each unit of the regions is in one block, which is live or free, no two blocks
    share a byte, no free byte lies outside the regions, and the counts add up. -/
theorem units_conserved (lawful : Arena.Lawful arena)
    (permitted : (new arena config).PermitsAll requests) :
    let client := (new arena config).run requests
    let regions := obtained arena config requests
    ∃ free, client.heap.freeBlocks = .ok free ∧
      (∀ region ∈ regions, ∃ n, region.stop = region.start + n * Arena.unit A ∧
        ∀ k < n, (free ++ client.blocks).countP (fun b =>
          b.address ≤ region.start + k * Arena.unit A ∧
            region.start + k * Arena.unit A + Arena.unit A ≤ b.stop (Arena.unit A)) = 1) ∧
      (free ++ client.blocks).Pairwise (FreeBlock.Disjoint (Arena.unit A)) ∧
      (∀ b ∈ free, ∀ x ∈ b.span (Arena.unit A), ∃ region ∈ regions, x ∈ region) ∧
      ∃ stats, client.heap.stats = .ok stats ∧
        stats.arenaUnits = (regions.map fun r => (r.stop - r.start) / Arena.unit A).sum ∧
        stats.extensions = regions.length ∧
        stats.freeBlocks = free.length ∧
        stats.freeUnits + (client.live.map (·.size ⌈/⌉ Arena.unit A + 1)).sum = stats.arenaUnits := by
  intro client regions
  obtain ⟨Keeps, ledger, free, laws, sound, same⟩ := exists_sound lawful permitted
  have divides := sound.divides laws
  rw [same] at divides
  refine ⟨free, divides.freeBlocks, divides.units, divides.disjoint, ?_, divides.stats⟩
  intro b mem x inside
  exact (divides.occupied x).1 ⟨b, List.mem_append_left _ mem, inside⟩

theorem units_conserved_grown :
    (new Segment.default { minExtensionUnits := 4 }).PermitsAll
        [.allocate 20, .allocate 9, .fill 0x10040030 255 16, .deallocate 0x10040008, .allocate 33] ∧
      ∃ stats, ((new Segment.default { minExtensionUnits := 4 }).run
          [.allocate 20, .allocate 9, .fill 0x10040030 255 16, .deallocate 0x10040008, .allocate 33]).heap.stats = .ok stats ∧
        stats.freeUnits + 9 = stats.arenaUnits := by
  have permitted : (new Segment.default { minExtensionUnits := 4 }).PermitsAll
      [.allocate 20, .allocate 9, .fill 0x10040030 255 16, .deallocate 0x10040008, .allocate 33] := by decide
  obtain ⟨free, -, -, -, -, stats, counted, -, -, -, total⟩ :=
    units_conserved (Segment.lawful _) permitted
  exact ⟨permitted, stats, counted, total⟩

end NextFit.Client
