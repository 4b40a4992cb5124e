import NextFit.Proofs.Arena.Segment
import NextFit.Proofs.FreeBlock.Canonical
import NextFit.Proofs.Client.Recorded

/-! # A free list has no history

The free list is determined by the memory that the heap obtained and by what is live. The order of
the requests, the cursor, and the blocks that were cut and joined on the way leave no trace in it.
-/

namespace NextFit.Client

variable {A B : Type} [Arena A] [Arena B] {Keeps : A → Ledger → Prop} {Keeps' : B → Ledger → Prop}
  {client : Client A} {other : Client B} {ledger ledger' : Ledger} {free free' : List FreeBlock}

theorem Sound.free_eq (laws : Arena.Laws Keeps) (laws' : Arena.Laws Keeps')
    (h : client.Sound Keeps ledger free) (h' : other.Sound Keeps' ledger' free')
    (unit : Arena.unit A = Arena.unit B)
    (memory : ∀ x, (∃ r ∈ ledger.regions, x ∈ r) ↔ ∃ r ∈ ledger'.regions, x ∈ r)
    (live : ∀ b, b ∈ client.blocks ↔ b ∈ other.blocks) : free = free' := by
  have list := h.accounts.holds
  have list' := h'.accounts.holds
  refine FreeBlock.eq_of_occupied laws.unit_pos list.nonempty list'.nonempty list.separated
    (unit ▸ list'.separated) ?_
  intro x
  have sameLive : FreeBlock.Occupied (Arena.unit A) client.blocks x ↔
      FreeBlock.Occupied (Arena.unit B) other.blocks x := by
    simp only [FreeBlock.Occupied, live, unit]
  rw [h.accounts.occupied_free_iff laws, unit, h'.accounts.occupied_free_iff laws', memory, ← sameLive,
    unit]

/-- Giving back several addresses one after the other. -/
theorem Sound.deallocateAll {addresses : List Nat} (laws : Arena.Laws Keeps)
    (h : client.Sound Keeps ledger free) (distinct : addresses.Nodup)
    (held : ∀ address ∈ addresses, ∃ a ∈ client.live, a.address = address) :
    ∃ ledger' free', (client.run (addresses.map .deallocate)).Sound Keeps ledger' free' ∧
      ledger'.regions = ledger.regions ∧
      (client.run (addresses.map .deallocate)).live =
        client.live.filter (·.address ∉ addresses) := by
  induction addresses generalizing client ledger free with
  | nil => exact ⟨ledger, free, h, rfl, by simp [Client.run]⟩
  | cons address rest ih =>
      obtain ⟨a, mem, rfl⟩ := held address List.mem_cons_self
      obtain ⟨fresh, distinct⟩ := List.nodup_cons.1 distinct
      obtain ⟨-, live, ledger₁, reached⟩ := h.deallocate laws mem
      have same := reached.heap.regions.trans (List.append_nil _)
      have held' : ∀ address ∈ rest, ∃ b ∈ (client.step (.deallocate a.address)).live,
          b.address = address := by
        intro address later
        obtain ⟨b, mem, rfl⟩ := held address (List.mem_cons_of_mem _ later)
        refine ⟨b, ?_, rfl⟩
        rw [live, List.mem_filter]
        exact ⟨mem, decide_eq_true fun equal => fresh (equal ▸ later)⟩
      obtain ⟨ledger', free', sound', same', live'⟩ := ih reached.sound distinct held'
      refine ⟨ledger', free', sound', same'.trans same, live'.trans ?_⟩
      rw [live, List.filter_filter]
      apply List.filter_congr
      intro b _
      simp [not_or, Bool.and_comm]

/-- A segment whose blocks are all back is one free block. -/
theorem Sound.free_eq_whole {client : Client Segment} {start : Nat}
    (h : client.Sound (Segment.Keeps start) ledger free) (returned : client.live = []) :
    free = if client.heap.extensions = 0 then []
      else [{ address := start, size := client.heap.arenaUnits }] := by
  have laws := Segment.laws start
  have accounts := h.accounts
  have list := accounts.holds
  have count := accounts.extensions_le laws
  have few : client.heap.extensions = 0 → client.heap.arenaUnits = 0 := by
    intro none
    rw [accounts.extensions, List.length_eq_zero_iff] at none
    rw [accounts.arenaUnits, Ledger.units, none]
    rfl
  have whole : FreeBlock.Tile Segment.unit free
      [{ address := start, size := client.heap.arenaUnits }] := by
    have tile := accounts.tile
    rw [blocks, returned, List.map_nil, List.append_nil] at tile
    rw [accounts.arenaUnits]
    exact tile.trans (list.keeps.follow.tile laws.unit_pos list.wellFormed.whole).symm
  split
  case isTrue none =>
    have units := whole.units_eq
    have length := FreeBlock.length_le_units list.nonempty
    simp only [FreeBlock.units, few none] at units length
    exact List.length_eq_zero_iff.1 (by omega)
  case isFalse some =>
    refine FreeBlock.eq_of_occupied laws.unit_pos list.nonempty ?_ list.separated
      (List.pairwise_singleton _ _) fun x => whole.occupied_iff laws.unit_pos
    intro b mem
    cases List.mem_singleton.1 mem
    show 0 < client.heap.arenaUnits
    omega

theorem Sound.undo {size address : Nat} (laws : Arena.Laws Keeps)
    (h : client.Sound Keeps ledger free)
    (given : (Heap.allocate size client.heap).result = .ok address)
    (served : (client.step (.allocate size)).heap.extensions = client.heap.extensions) :
    ((client.step (.allocate size)).step (.deallocate address)).heap.freeBlocks = .ok free := by
  have permitted : client.Permits (.allocate size) := trivial
  obtain ⟨ledger₁, free₁, sound₁, regions⟩ := h.step laws permitted
  have live : (client.step (.allocate size)).live = { address, size } :: client.live := by
    simp only [Client.step, given]
  have mem : Allocation.mk address size ∈ (client.step (.allocate size)).live := by simp [live]
  obtain ⟨-, rest, ledger₂, reached⟩ := sound₁.deallocate laws mem
  have sound₂ := reached.sound
  have same := reached.heap.regions.trans (List.append_nil _)
  have nothing : ledger₁.regions = ledger.regions := by
    refine (regions.eq_of_length ?_).symm
    rw [← h.accounts.extensions, ← sound₁.accounts.extensions, served]
  have split := sound₁.perm_filter laws mem
  rw [live] at split
  have back := split.cons_inv
  rw [sound₂.freeBlocks_eq laws]
  refine congrArg _ (sound₂.free_eq laws laws h rfl (fun x => by rw [same, nothing]) ?_)
  intro b
  simp only [blocks, rest, live]
  exact (back.map _).symm.mem_iff

theorem free_list_canonical {arena : A} {config : HeapConfig} {requests : List Request}
    (lawful : Arena.Lawful arena) (permitted : (new arena config).PermitsAll requests) :
    -- Another run to the same memory and the same live blocks ends with the same free list.
    (∀ {B : Type} [Arena B] {arena' : B} {config' : HeapConfig} {requests' : List Request},
      Arena.Lawful arena' → (new arena' config').PermitsAll requests' → Arena.unit A = Arena.unit B →
      (∀ x, (∃ r ∈ obtained arena config requests, x ∈ r) ↔
        ∃ r ∈ obtained arena' config' requests', x ∈ r) →
      (∀ b, b ∈ ((new arena config).run requests).blocks ↔
        b ∈ ((new arena' config').run requests').blocks) →
      ∃ free, ((new arena config).run requests).heap.freeBlocks = .ok free ∧
        ((new arena' config').run requests').heap.freeBlocks = .ok free) ∧
    -- So does giving back the same addresses in another order,
    (∀ addresses addresses' : List Nat, addresses.Nodup →
      (∀ address ∈ addresses, ∃ a ∈ ((new arena config).run requests).live, a.address = address) →
      addresses'.Perm addresses →
      ∃ free, (((new arena config).run requests).run (addresses.map .deallocate)).heap.freeBlocks =
          .ok free ∧
        (((new arena config).run requests).run (addresses'.map .deallocate)).heap.freeBlocks =
          .ok free) ∧
    -- and giving back at once what was allocated without an extension.
    (∀ size address, (Heap.allocate size ((new arena config).run requests).heap).result = .ok address →
      (((new arena config).run requests).step (.allocate size)).heap.extensions =
        ((new arena config).run requests).heap.extensions →
      ∃ free, ((new arena config).run requests).heap.freeBlocks = .ok free ∧
        ((((new arena config).run requests).step (.allocate size)).step
          (.deallocate address)).heap.freeBlocks = .ok free) ∧
    -- A fresh segment of which nothing is live is one block.
    ∀ (segment : Segment) (config : HeapConfig) (requests : List Request), segment.length = 0 →
      (new segment config).PermitsAll requests → ((new segment config).run requests).live = [] →
      ((new segment config).run requests).heap.freeBlocks = .ok
        (if ((new segment config).run requests).heap.extensions = 0 then []
          else [{ address := segment.base
                  size := ((new segment config).run requests).heap.arenaUnits }]) := by
  obtain ⟨Keeps, ledger, free, laws, sound, same⟩ := exists_sound lawful permitted
  refine ⟨?_, ?_, ?_, ?_⟩
  · intro B _ arena' config' requests' lawful' permitted' unit memory live
    obtain ⟨Keeps', ledger', free', laws', sound', same'⟩ := exists_sound lawful' permitted'
    rw [← same, ← same'] at memory
    obtain rfl := sound.free_eq laws laws' sound' unit memory live
    exact ⟨free, sound.freeBlocks_eq laws, sound'.freeBlocks_eq laws'⟩
  · intro addresses addresses' distinct held perm
    obtain ⟨ledger₁, free₁, sound₁, same₁, live₁⟩ := sound.deallocateAll laws distinct held
    obtain ⟨ledger₂, free₂, sound₂, same₂, live₂⟩ := sound.deallocateAll laws
      (perm.nodup_iff.2 distinct) fun address mem => held address (perm.mem_iff.1 mem)
    refine ⟨free₁, sound₁.freeBlocks_eq laws, (sound₂.freeBlocks_eq laws).trans ?_⟩
    refine congrArg _ (sound₂.free_eq laws laws sound₁ rfl (fun x => by rw [same₁, same₂]) ?_)
    intro b
    simp only [blocks, live₁, live₂, perm.mem_iff]
  · intro size address given served
    exact ⟨free, sound.freeBlocks_eq laws, sound.undo laws given served⟩
  · intro segment config requests fresh permitted returned
    obtain ⟨ledger, free, sound, -⟩ := (Sound.new segment.keeps_empty config).run
      (Segment.laws segment.brk) permitted
    have start : segment.brk = segment.base := by rw [Segment.brk, fresh, Nat.add_zero]
    rw [sound.freeBlocks_eq (Segment.laws segment.brk), sound.free_eq_whole returned, start]

/-- Two allocations, alone and behind a third one that was given back. -/
theorem free_list_canonical_detour :
    (new Segment.default { minExtensionUnits := 16 }).PermitsAll [.allocate 20, .allocate 9] ∧
      (∃ free, ((new Segment.default { minExtensionUnits := 16 }).run
            [.allocate 20, .allocate 9]).heap.freeBlocks = .ok free ∧
          ((new Segment.default { minExtensionUnits := 16 }).run [.allocate 3,
            .deallocate 0x10040078, .allocate 20, .allocate 9]).heap.freeBlocks = .ok free) ∧
      (∃ free, (((new Segment.default { minExtensionUnits := 16 }).run
            [.allocate 20, .allocate 9]).run
              [.deallocate 0x10040050, .deallocate 0x10040068]).heap.freeBlocks = .ok free ∧
          (((new Segment.default { minExtensionUnits := 16 }).run
            [.allocate 20, .allocate 9]).run
              [.deallocate 0x10040068, .deallocate 0x10040050]).heap.freeBlocks = .ok free) ∧
      ((new Segment.default { minExtensionUnits := 16 }).run [.allocate 20, .allocate 9,
          .deallocate 0x10040050, .deallocate 0x10040068]).heap.freeBlocks =
        .ok [{ address := Segment.defaultBase, size := 16 }] := by
  have permitted : (new Segment.default { minExtensionUnits := 16 }).PermitsAll
      [.allocate 20, .allocate 9] := by decide
  obtain ⟨same, orders, -, whole⟩ := free_list_canonical (Segment.lawful _) permitted
  refine ⟨permitted, same (Segment.lawful _) (by decide) rfl ?_ ?_, ?_, ?_⟩
  · have memory : obtained Segment.default { minExtensionUnits := 16 } [.allocate 20, .allocate 9] =
        obtained Segment.default { minExtensionUnits := 16 } [.allocate 3, .deallocate 0x10040078,
          .allocate 20, .allocate 9] := by decide
    exact fun x => by rw [memory]
  · have blocks : ((new Segment.default { minExtensionUnits := 16 }).run
        [.allocate 20, .allocate 9]).blocks = ((new Segment.default { minExtensionUnits := 16 }).run
          [.allocate 3, .deallocate 0x10040078, .allocate 20, .allocate 9]).blocks := by decide
    exact fun b => by rw [blocks]
  · exact orders [0x10040050, 0x10040068] [0x10040068, 0x10040050] (by decide) (by decide)
      (.swap _ _ _)
  · exact (whole Segment.default { minExtensionUnits := 16 } [.allocate 20, .allocate 9,
      .deallocate 0x10040050, .deallocate 0x10040068] rfl (by decide) (by decide)).trans (by decide)

end NextFit.Client
