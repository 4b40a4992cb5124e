import NextFit.Proofs.Client.Extension
import NextFit.Proofs.Pool.Coalescing

/-! # A freed block serves the next request for as many units

A block that touches no free block joins the free list as it is, and the next search starts behind the
node in front of it. So a request for just its units is served by it at once, before any other block is
looked at, and the free list is again what it was.
-/

namespace NextFit

namespace FreeBlock

variable {unit : Nat} {b : FreeBlock} {low high joined : List FreeBlock}

/-- No block of the list touches `b`. -/
def Isolated (unit : Nat) (b : FreeBlock) (blocks : List FreeBlock) : Prop :=
  ∀ c ∈ blocks, c.stop unit ≠ b.address ∧ c.address ≠ b.stop unit

instance (unit : Nat) (b : FreeBlock) (blocks : List FreeBlock) :
    Decidable (Isolated unit b blocks) :=
  inferInstanceAs (Decidable (∀ c ∈ blocks, _))

/-- A block that touches no other one stays on its own. -/
theorem Coalesced.eq_of_isolated (h : Coalesced unit low b high joined)
    (isolated : Isolated unit b (low ++ high)) : joined = low ++ b :: high := by
  cases h with
  | alone => rfl
  | successor _ touch => exact absurd touch.symm (isolated _ (by simp)).2
  | predecessor touch => exact absurd touch (isolated _ (by simp)).1
  | both touch => exact absurd touch (isolated _ (by simp)).1

/-- A lap behind the node in front of a block starts with that block. -/
theorem lap_at (ascending : Ascending (low ++ b :: high)) (nonzero : b.address ≠ sentinelAddress) :
    lap (lastFrom sentinelAddress low) (low ++ b :: high) = b :: high ++ low := by
  obtain ⟨lows, highs⟩ := ascending.around
  have before : lastFrom sentinelAddress low < b.address := by
    rcases lastFrom_mem sentinelAddress low with first | ⟨p, mem, last⟩
    · rw [first]
      exact Nat.pos_of_ne_zero nonzero
    · exact last ▸ lows p mem
  refine Pool.lap_cut (Ascending.le_lastFrom (List.pairwise_append.1 ascending).1) fun c mem => ?_
  rcases List.mem_cons.1 mem with rfl | later
  · exact before
  · exact Nat.lt_trans before (highs c later)

end FreeBlock

open FreeBlock

/-- The block that was put back is what the next search for its units takes, and nothing is left of
    it. Only the place has changed where a search starts. -/
theorem Layout.take?_release {unit : Nat} {b : FreeBlock} {layout : Layout} (positive : 0 < unit)
    (separated : Separated unit layout.free) (nonempty : ∀ c ∈ b :: layout.free, 0 < c.size)
    (nonzero : b.address ≠ sentinelAddress) (disjoint : ∀ c ∈ layout.free, Disjoint unit b c)
    (isolated : Isolated unit b layout.free) :
    (layout.release unit b).take? unit b.size =
      some (b.address, { layout with start := below layout.free b.address }) := by
  obtain ⟨free, start, config, arenaUnits, extensions⟩ := layout
  have apart : ∀ c ∈ free, c.address ≠ b.address := fun c mem =>
    (disjoint c mem).symm.address_ne positive (nonempty c (List.mem_cons_of_mem _ mem))
      (nonempty b List.mem_cons_self)
  obtain ⟨low, high, rfl, lows, highs⟩ := separated.ascending.exists_cut apart
  have joined : FreeBlock.release unit b (low ++ high) = low ++ b :: high :=
    (coalesced_release separated lows highs).eq_of_isolated isolated
  have ascending : Ascending (low ++ b :: high) :=
    joined ▸ (separated_release positive nonempty separated disjoint).ascending
  have cursor : below (low ++ high) b.address = lastFrom sentinelAddress low :=
    below_of_cut lows fun c mem => Nat.le_of_lt (highs c mem)
  have first : nextFit? b.size (lastFrom sentinelAddress low) (low ++ b :: high) = some b := by
    rw [nextFit?, lap_at ascending nonzero]
    exact List.find?_cons_of_pos (by simp)
  have whole : (b.tail unit b.size).address = b.address := by simp [tail]
  simp only [take?, release, joined, cursor, first, Option.map_some, whole,
    carve_whole ascending (Nat.le_refl _), below_at ascending]

namespace Client

variable {A : Type} [Arena A] {Keeps : A → Ledger → Prop} {client : Client A} {ledger : Ledger}
  {free : List FreeBlock} {a : Allocation}

namespace Sound

variable (laws : Arena.Laws Keeps) (h : client.Sound Keeps ledger free) (held : a ∈ client.live)

include laws h held

theorem placed_block : (a.block (Arena.unit A)).Placed (Arena.unit A)
    (· ∈ ledger.cells (Arena.unit A)) (ledger.units (Arena.unit A)) :=
  h.accounts.holds.wellFormed.placed laws.unit_pos (Nat.succ_pos _)
    (h.accounts.cells_subset (List.mem_append_right _ (List.mem_map_of_mem held)))

/-- The bytes of a block that is held can be counted. -/
theorem units_mul_lt : a.units (Arena.unit A) * Arena.unit A < Size.bound := by
  have ends := (h.placed_block laws held).stop_le
  have last : Size.greatest < Size.bound := by decide
  exact Nat.lt_of_le_of_lt (Nat.le_trans (Nat.le_add_left _ _) ends) last

theorem disjoint_block {c : FreeBlock} (mem : c ∈ free) :
    Disjoint (Arena.unit A) (a.block (Arena.unit A)) c :=
  ((List.pairwise_append.1 (h.accounts.pairwise_disjoint laws)).2.2 c mem _
    (List.mem_map_of_mem held)).symm

/-- A search behind the release of a block that is held takes this block. -/
theorem take?_release (isolated : Isolated (Arena.unit A) (a.block (Arena.unit A)) free) :
    ((client.heap.layout free).release (Arena.unit A) (a.block (Arena.unit A))).take?
        (Arena.unit A) (a.units (Arena.unit A)) =
      some ((a.block (Arena.unit A)).address, { client.heap.layout free with
        start := below free (a.block (Arena.unit A)).address }) :=
  Layout.take?_release laws.unit_pos h.accounts.holds.separated
    (List.forall_mem_cons.2 ⟨Nat.succ_pos _, h.accounts.holds.nonempty⟩)
    (h.placed_block laws held).nonzero (fun _ mem => h.disjoint_block laws held mem) isolated

end Sound

variable {arena : A} {config : HeapConfig} {requests : List Request}

/-- Behind any run, an address that is given back and whose block touches no free block is the answer
    to the next request for as many units. The arena is not asked, and the free list and the counts
    are what they were before. Neither the cursor nor any other free block has a say. -/
theorem allocate_returns_freed {size : Nat} (lawful : Arena.Lawful arena)
    (permitted : (new arena config).PermitsAll requests)
    (held : a ∈ ((new arena config).run requests).live)
    (same : size ⌈/⌉ Arena.unit A + 1 = a.units (Arena.unit A)) :
    let client := (new arena config).run requests
    let freed := client.step (.deallocate a.address)
    let reused := freed.step (.allocate size)
    ∃ free, client.heap.freeBlocks = .ok free ∧
      (Isolated (Arena.unit A) (a.block (Arena.unit A)) free →
        (Heap.deallocate a.address client.heap).result = .ok () ∧
        (Heap.allocate size freed.heap).result = .ok a.address ∧
        freed.heap.asked size = [] ∧
        reused.heap.freeBlocks = .ok free ∧ reused.heap.stats = client.heap.stats) := by
  intro client freed reused
  obtain ⟨Keeps, laws, keeps⟩ := lawful
  obtain ⟨ledger, free, sound, -⟩ := (Sound.new keeps config).run laws permitted
  refine ⟨free, sound.freeBlocks_eq laws, fun isolated => ?_⟩
  obtain ⟨done, -, ledger₁, released⟩ := sound.deallocate laws held
  have retaken := same ▸ sound.take?_release laws held isolated
  have fits := same ▸ sound.units_mul_lt laws held
  rw [← released.heap.layout] at retaken
  obtain ⟨result, ledger₂, rest, granted, allocates, ended, reached⟩ :=
    released.sound.allocate laws size
  obtain ⟨acquired, rfl, acquires⟩ := allocates.acquires fits
  obtain ⟨rfl, rfl, rfl⟩ := acquires.unique (.found retaken)
  have sound' : reused.Sound Keeps ledger₂ free := reached.sound
  have place : (a.block (Arena.unit A)).address + Arena.unit A = a.address :=
    Allocation.block_address (sound.behind a held)
  refine ⟨done, ended.trans (congrArg Except.ok place), ?asked, sound'.freeBlocks_eq laws, ?stats⟩
  case asked =>
    rw [released.sound.accounts.asked_eq laws size, Layout.request?, if_pos fits, Layout.asksFor?,
      if_neg (by simp [retaken])]
    rfl
  case stats =>
    have arenaUnits : reused.heap.arenaUnits = client.heap.arenaUnits :=
      congrArg Layout.arenaUnits reached.heap.layout
    have extensions : reused.heap.extensions = client.heap.extensions :=
      congrArg Layout.extensions reached.heap.layout
    rw [sound'.stats_eq laws, sound.stats_eq laws, arenaUnits, extensions]

/-- A block below the one that is given back is free and would do as well, and so would the one that
    was given back before. -/
theorem allocate_returns_freed_among_others :
    let client := (new Segment.default { minExtensionUnits := 16 }).run
      [.allocate 8, .allocate 8, .allocate 8, .allocate 8, .allocate 8, .deallocate 0x10040068]
    let freed := client.step (.deallocate 0x10040048)
    client.heap.freeBlocks =
        .ok [{ address := 0x10040000, size := 6 }, { address := 0x10040060, size := 2 }] ∧
      (Heap.allocate 3 freed.heap).result = .ok 0x10040048 ∧ freed.heap.asked 3 = [] ∧
      (freed.step (.allocate 3)).heap.freeBlocks = client.heap.freeBlocks := by
  intro client freed
  have permitted : (new Segment.default { minExtensionUnits := 16 }).PermitsAll
      [.allocate 8, .allocate 8, .allocate 8, .allocate 8, .allocate 8,
        .deallocate 0x10040068] := by decide
  have held : { address := 0x10040048, size := 8 } ∈ client.live := by decide
  have listed : client.heap.freeBlocks =
      .ok [{ address := 0x10040000, size := 6 }, { address := 0x10040060, size := 2 }] := by decide
  have same : 3 ⌈/⌉ Arena.unit Segment + 1 =
      Allocation.units (Arena.unit Segment) { address := 0x10040048, size := 8 } := by decide
  obtain ⟨free, known, reuses⟩ :=
    allocate_returns_freed (Segment.lawful _) permitted held same
  cases known.symm.trans listed
  obtain ⟨-, served, idle, kept, -⟩ := reuses (by decide)
  exact ⟨listed, served, idle, kept.trans listed.symm⟩

end Client

end NextFit
