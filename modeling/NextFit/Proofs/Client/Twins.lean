import NextFit.Proofs.Client.Faultless
import NextFit.Proofs.Client.OnSegment

/-! # What requests do not depend on

Two heaps of one layout whose arenas reply alike serve the same requests in the same way, whatever
the bytes are that a client has written or left behind. For a segment it is enough that both have the
same extent and that the headers of the free list and the size words of the live headers agree. The
next word of a live header, the payloads and the inside of the free blocks are never looked at.
-/

namespace NextFit

theorem Allocation.room_eq_of_block_eq {unit : Nat} {a c : Allocation}
    (same : c.block unit = a.block unit) : c.room unit = a.room unit := by
  have units : c.size ⌈/⌉ unit + 1 = a.size ⌈/⌉ unit + 1 := congrArg FreeBlock.size same
  rw [room, room, Nat.succ.inj units]

namespace Client

section Twins

variable {A : Type} [Arena A] {Keeps Keeps' : A → Ledger → Prop} {client other : Client A}
  {ledger ledger' : Ledger} {free : List FreeBlock} {request : Request}

/-- Clients that hold the same blocks of heaps with one layout. -/
structure Twins (Keeps Keeps' : A → Ledger → Prop) (client other : Client A) (ledger ledger' : Ledger)
    (free : List FreeBlock) : Prop where
  sound : client.Sound Keeps ledger free
  sound' : other.Sound Keeps' ledger' free
  layout : other.heap.layout free = client.heap.layout free
  blocks : ∀ b, b ∈ other.blocks ↔ b ∈ client.blocks

namespace Twins

theorem counterpart (h : Twins Keeps Keeps' client other ledger ledger' free) {a : Allocation}
    (held : a ∈ client.live) : ∃ c ∈ other.live, c.address = a.address ∧
      c.block (Arena.unit A) = a.block (Arena.unit A) := by
  obtain ⟨c, held', same⟩ := List.mem_map.1 ((h.blocks _).2 (List.mem_map_of_mem held))
  have place := Allocation.block_address (h.sound.behind a held)
  have place' := Allocation.block_address (h.sound'.behind c held')
  rw [same] at place'
  exact ⟨c, held', place'.symm.trans place, same⟩

theorem permits (h : Twins Keeps Keeps' client other ledger ledger' free)
    (permitted : client.Permits request) : other.Permits request := by
  cases request with
  | allocate size => trivial
  | deallocate address =>
      obtain ⟨a, held, rfl⟩ := permitted
      obtain ⟨c, held', address, -⟩ := h.counterpart held
      exact ⟨c, held', address⟩
  | fill address value count =>
      obtain ⟨a, held, low, high⟩ := permitted
      obtain ⟨c, held', address, same⟩ := h.counterpart held
      have room := Allocation.room_eq_of_block_eq same
      exact ⟨c, held', by omega, by omega⟩

/-- What remains when an address is given back. -/
theorem mem_map_block_filter {unit address : Nat} {live : List Allocation}
    (behind : ∀ a ∈ live, unit ≤ a.address) (b : FreeBlock) :
    b ∈ (live.filter (·.address ≠ address)).map (Allocation.block unit) ↔
      b ∈ live.map (Allocation.block unit) ∧ b.address + unit ≠ address := by
  simp only [List.mem_map, List.mem_filter, decide_eq_true_eq]
  constructor
  · rintro ⟨a, ⟨held, other⟩, rfl⟩
    exact ⟨⟨a, held, rfl⟩, Allocation.block_address (behind a held) ▸ other⟩
  · rintro ⟨⟨a, held, rfl⟩, other⟩
    exact ⟨a, ⟨held, Allocation.block_address (behind a held) ▸ other⟩, rfl⟩

/-- Both clients are told the same, and their heaps are granted the same memory. -/
def Advance (Keeps Keeps' : A → Ledger → Prop) (client other : Client A) (ledger ledger' : Ledger)
    (request : Request) : Prop :=
  other.answer request = client.answer request ∧ ∃ after after' rest granted,
    Twins Keeps Keeps' (client.step request) (other.step request) after after' rest ∧
      after.regions = ledger.regions ++ granted ∧ after'.regions = ledger'.regions ++ granted

variable (laws : Arena.Laws Keeps) (laws' : Arena.Laws Keeps')
  (h : Twins Keeps Keeps' client other ledger ledger' free)

include laws laws' h

theorem allocate (reply : Arena.reply other.heap.arena = Arena.reply client.heap.arena) (size : Nat) :
    Advance Keeps Keeps' client other ledger ledger' (.allocate size) := by
  obtain ⟨result, after, rest, granted, allocates, done, reached⟩ := h.sound.allocate laws size
  obtain ⟨result', after', rest', granted', allocates', done', reached'⟩ :=
    h.sound'.allocate laws' size
  rw [h.layout, reply] at allocates'
  obtain ⟨rfl, rfl, rfl⟩ := allocates.unique allocates'
  refine ⟨congrArg (Except.map some) (done'.trans done.symm), after, after', rest.free, granted,
    ⟨reached.sound, reached'.sound, reached'.heap.layout.trans reached.heap.layout.symm, ?_⟩,
    reached.heap.regions, reached'.heap.regions⟩
  intro b
  have same := h.blocks b
  simp only [Client.blocks] at same
  simp only [Client.blocks, Client.step, done, done']
  cases result with
  | ok address => simp only [List.map_cons, List.mem_cons, same]
  | error failure => exact same

theorem deallocate {a : Allocation} (held : a ∈ client.live) :
    Advance Keeps Keeps' client other ledger ledger' (.deallocate a.address) := by
  obtain ⟨c, held', address, same⟩ := h.counterpart held
  obtain ⟨done, live, after, reached⟩ := h.sound.deallocate laws held
  obtain ⟨done', live', after', reached'⟩ := h.sound'.deallocate laws' held'
  rw [address] at done' live' reached'
  rw [h.layout, same] at reached'
  refine ⟨congrArg (Except.map fun _ => none) (done'.trans done.symm), after, after', _, [],
    ⟨reached.sound, reached'.sound, reached'.heap.layout.trans reached.heap.layout.symm, ?_⟩,
    reached.heap.regions, reached'.heap.regions⟩
  intro b
  rw [Client.blocks, Client.blocks, live, live', mem_map_block_filter h.sound.behind,
    mem_map_block_filter h.sound'.behind]
  exact and_congr_left fun _ => h.blocks b

theorem fill {a : Allocation} {address count : Nat} (fillable : Arena.Fillable Keeps)
    (fillable' : Arena.Fillable Keeps') (held : a ∈ client.live) (value : UInt8)
    (low : a.address ≤ address) (high : address + count ≤ a.address + a.room (Arena.unit A)) :
    Advance Keeps Keeps' client other ledger ledger' (.fill address value count) := by
  obtain ⟨c, held', same, block⟩ := h.counterpart held
  have room := Allocation.room_eq_of_block_eq block
  have low' : c.address ≤ address := by omega
  have high' : address + count ≤ c.address + c.room (Arena.unit A) := by omega
  have done := h.sound.fill_ok fillable held value low high
  have done' := h.sound'.fill_ok fillable' held' value low' high'
  obtain ⟨after, reached⟩ := h.sound.fill laws held value low high
  obtain ⟨after', reached'⟩ := h.sound'.fill laws' held' value low' high'
  have layout := reached'.heap.layout.trans (h.layout.trans reached.heap.layout.symm)
  exact ⟨congrArg (Except.map fun _ => none) (done'.trans done.symm), after, after', free, [],
    ⟨reached.sound, reached'.sound, layout, h.blocks⟩, reached.heap.regions, reached'.heap.regions⟩

/-- Twins stay twins. -/
theorem advance (fillable : Arena.Fillable Keeps) (fillable' : Arena.Fillable Keeps')
    (reply : Arena.reply other.heap.arena = Arena.reply client.heap.arena)
    (permitted : client.Permits request) :
    Advance Keeps Keeps' client other ledger ledger' request := by
  cases request with
  | allocate size => exact h.allocate laws laws' reply size
  | deallocate address =>
      obtain ⟨a, held, rfl⟩ := permitted
      exact h.deallocate laws laws' held
  | fill address value count =>
      obtain ⟨a, held, low, high⟩ := permitted
      exact h.fill laws laws' fillable fillable' held value low high

theorem freeBlocks_eq : other.heap.freeBlocks = client.heap.freeBlocks :=
  (h.sound'.freeBlocks_eq laws').trans (h.sound.freeBlocks_eq laws).symm

theorem stats_eq : other.heap.stats = client.heap.stats := by
  have units : other.heap.arenaUnits = client.heap.arenaUnits := congrArg Layout.arenaUnits h.layout
  have extensions : other.heap.extensions = client.heap.extensions :=
    congrArg Layout.extensions h.layout
  rw [h.sound'.stats_eq laws', h.sound.stats_eq laws, units, extensions]

end Twins

end Twins

variable {client other : Client Segment} {ledger ledger' : Ledger} {free : List FreeBlock}
  {start start' : Nat} {origin : Segment} {requests : List Request}

theorem Twins.run (h : Twins (Segment.KeepsWithin start origin) (Segment.KeepsWithin start' origin)
      client other ledger ledger' free)
    (extent : client.heap.arena.SameExtent other.heap.arena) (permitted : client.PermitsAll requests) :
    other.PermitsAll requests ∧ other.observations requests = client.observations requests := by
  have laws := Segment.laws_within start origin
  have laws' := Segment.laws_within start' origin
  induction requests generalizing client other ledger ledger' free with
  | nil => exact ⟨trivial, rfl⟩
  | cons request rest ih =>
      obtain ⟨answer, after, after', left, granted, twins, regions, regions'⟩ := h.advance laws laws'
        (Segment.fillable_within _ _) (Segment.fillable_within _ _) extent.reply permitted.1
      have extent' := Segment.KeepsWithin.sameExtent extent h.sound.accounts.holds.keeps
        h.sound'.accounts.holds.keeps twins.sound.accounts.holds.keeps
        twins.sound'.accounts.holds.keeps regions regions'
      obtain ⟨permits, later⟩ := ih twins extent' permitted.2
      refine ⟨⟨h.permits permitted.1, permits⟩, ?_⟩
      simp only [observations, observe, answer, twins.freeBlocks_eq laws laws',
        twins.stats_eq laws laws', later]

/-- The clients hold the same addresses, their heaps are in the same state, and of the bytes in their
    segments at least the headers of the free blocks and the size words of the live headers agree. -/
structure Alike (client other : Client Segment) : Prop where
  freeList : other.heap.pool.freeList = client.heap.pool.freeList
  config : other.heap.config = client.heap.config
  arenaUnits : other.heap.arenaUnits = client.heap.arenaUnits
  extensions : other.heap.extensions = client.heap.extensions
  extent : client.heap.arena.SameExtent other.heap.arena
  nodes : ∀ free, client.heap.freeBlocks = .ok free → ∀ b ∈ free,
    other.heap.arena.load b.address = client.heap.arena.load b.address
  live : ∀ address, address ∈ other.live.map (·.address) ↔ address ∈ client.live.map (·.address)
  sizes : ∀ a ∈ client.live, other.heap.arena.readWord (a.address - Segment.wordBytes) =
    client.heap.arena.readWord (a.address - Segment.wordBytes)

namespace Alike

/-- The headers that agree make up one free list. -/
theorem free_eq {free' : List FreeBlock} (alike : client.Alike other)
    (h : client.Sound (Segment.Keeps start) ledger free)
    (h' : other.Sound (Segment.Keeps start') ledger' free') : free' = free := by
  have laws := Segment.laws start
  have links := (h.accounts.holds.ring laws).links.congr
    (alike.nodes free (h.freeBlocks_eq laws))
  rw [← alike.freeList] at links
  exact (h'.accounts.holds.ring (Segment.laws start')).links.unique links

/-- A live address comes with the same block. -/
theorem block_eq {a : Allocation} (alike : client.Alike other)
    (h : client.Sound (Segment.Keeps start) ledger free)
    (h' : other.Sound (Segment.Keeps start') ledger' free) (held : a ∈ client.live) {c : Allocation}
    (held' : c ∈ other.live) (same : c.address = a.address) :
    c.block Segment.unit = a.block Segment.unit := by
  have words := alike.sizes a held
  rw [h.readWord_size held, ← same, h'.readWord_size held'] at words
  simp only [Allocation.block, same, Except.ok.inj words]

theorem blocks_iff (alike : client.Alike other) (h : client.Sound (Segment.Keeps start) ledger free)
    (h' : other.Sound (Segment.Keeps start') ledger' free) (b : FreeBlock) :
    b ∈ other.blocks ↔ b ∈ client.blocks := by
  constructor
  · intro mem
    obtain ⟨c, held', rfl⟩ := List.mem_map.1 mem
    obtain ⟨a, held, same⟩ := List.mem_map.1 ((alike.live c.address).1 (List.mem_map_of_mem held'))
    exact List.mem_map.2 ⟨a, held, (alike.block_eq h h' held held' same.symm).symm⟩
  · intro mem
    obtain ⟨a, held, rfl⟩ := List.mem_map.1 mem
    obtain ⟨c, held', same⟩ := List.mem_map.1 ((alike.live a.address).2 (List.mem_map_of_mem held))
    exact List.mem_map.2 ⟨c, held', alike.block_eq h h' held held' same⟩

end Alike

/-- Clients that are alike may make the same requests from then on, and every run of them shows the
    same of both. -/
theorem observations_eq_of_alike (orderly : client.Orderly) (orderly' : other.Orderly)
    (alike : client.Alike other) (permitted : client.PermitsAll requests) :
    other.PermitsAll requests ∧ other.observations requests = client.observations requests := by
  obtain ⟨start, ledger, free, sound⟩ := orderly
  obtain ⟨start', ledger', free', sound'⟩ := orderly'
  cases alike.free_eq sound sound'
  have keeps : Segment.KeepsWithin start client.heap.arena client.heap.arena ledger :=
    ⟨sound.accounts.holds.keeps, rfl, rfl⟩
  have keeps' : Segment.KeepsWithin start' client.heap.arena other.heap.arena ledger' :=
    ⟨sound'.accounts.holds.keeps, alike.extent.base, alike.extent.limit⟩
  have layout : other.heap.layout free = client.heap.layout free := by
    simp only [Heap.layout, Pool.start, alike.freeList, alike.config, alike.arenaUnits,
      alike.extensions]
  have twins : Twins (Segment.KeepsWithin start client.heap.arena)
      (Segment.KeepsWithin start' client.heap.arena) client other ledger ledger' free :=
    ⟨sound.recast (.refl _) keeps, sound'.recast (.refl _) keeps', layout,
      alike.blocks_iff sound sound'⟩
  exact twins.run alike.extent permitted

/-- One payload differs, and so does what another one has left in the free block. -/
theorem observations_eq_of_alike_filled :
    let first : List Request := [.allocate 20, .allocate 9, .fill 0x10040068 171 2,
      .fill 0x10040050 1 2, .deallocate 0x10040050]
    let second : List Request := [.allocate 20, .allocate 9, .fill 0x10040068 172 2,
      .fill 0x10040050 2 2, .deallocate 0x10040050]
    let client := (new Segment.default { minExtensionUnits := 16 }).run first
    let other := (new Segment.default { minExtensionUnits := 16 }).run second
    let more : List Request := [.allocate 70, .fill 0x10040020 7 3, .deallocate 0x10040068, .allocate 1,
      .allocate 4294967295]
    client.Orderly ∧ other.Orderly ∧ client.Alike other ∧
      client.heap.arena.readBytes 0x10040068 2 = .ok [171, 171] ∧
      other.heap.arena.readBytes 0x10040068 2 = .ok [172, 172] ∧
      client.heap.arena.readBytes 0x10040050 2 = .ok [1, 1] ∧
      other.heap.arena.readBytes 0x10040050 2 = .ok [2, 2] ∧
      client.PermitsAll more ∧ other.observations more = client.observations more := by
  intro first second client other more
  have orderly : client.Orderly := orderly_run (by decide)
  have orderly' : other.Orderly := orderly_run (by decide)
  have live : other.live = client.live := by decide
  have listed : client.heap.freeBlocks = .ok [{ address := 0x10040000, size := 12 }] := by decide
  have alike : client.Alike other := by
    constructor
    case freeList => decide
    case config => rfl
    case arenaUnits => decide
    case extensions => decide
    case extent => exact ⟨by decide, by decide, by decide⟩
    case nodes =>
      have headers : ∀ b ∈ [({ address := 0x10040000, size := 12 } : FreeBlock)],
          other.heap.arena.load b.address = client.heap.arena.load b.address := by decide +kernel
      intro free known
      exact Except.ok.inj (listed.symm.trans known) ▸ headers
    case live =>
      rw [live]
      exact fun _ => .rfl
    case sizes => decide +kernel
  have permitted : client.PermitsAll more := by decide
  obtain ⟨-, same⟩ := observations_eq_of_alike orderly orderly' alike permitted
  exact ⟨orderly, orderly', alike, by decide, by decide, by decide, by decide, permitted, same⟩

end Client

end NextFit
