import NextFit.Proofs.Pool.Strung

/-! # Pools that hold a free list

`pool.Holds Keeps ledger blocks` is the invariant of a pool whose arena is lawful: its arena keeps the
ledger, and the pool is strung on blocks that consist of units of the regions and do not touch. The
units of the regions are the spots of such an arena, so what a strung pool does is done here with the
regions as they are.
-/

namespace NextFit

/-- Nothing is granted, and what is known about the headers may change. -/
def Arena.KeepsOver {A : Type} (Keeps : A → Ledger → Prop) (regions : List Region) (arena : A)
    (ledger : Ledger) : Prop :=
  Keeps arena ledger ∧ ledger.regions = regions

/-- The units of the regions are spots for headers. -/
theorem Arena.Laws.slate {A : Type} [Arena A] {Keeps : A → Ledger → Prop} {ledger : Ledger}
    (laws : Arena.Laws Keeps) (wellFormed : ledger.WellFormed (Arena.unit A)) :
    Arena.Slate (Arena.KeepsOver Keeps ledger.regions) (· ∈ ledger.cells (Arena.unit A))
      (ledger.units (Arena.unit A)) where
  unit_pos := laws.unit_pos
  load keeps known := laws.load keeps.1 known
  store := by
    intro arena current address header keeps spot leads fits
    obtain ⟨kept, same⟩ := keeps
    obtain ⟨region, granted, inside, -⟩ := wellFormed.exists_region laws.unit_pos spot
    have target : header.next = sentinelAddress ∨ ∃ target ∈ current.regions, header.next ∈ target := by
      apply leads.imp_right
      intro cell
      obtain ⟨target, mem, within, -⟩ := wellFormed.exists_region laws.unit_pos cell
      have bounds := Region.contains_eq_true_iff.1 within
      have positive := laws.unit_pos
      exact ⟨target, same ▸ mem, bounds.1, by omega⟩
    have units : current.units (Arena.unit A) = ledger.units (Arena.unit A) := by
      rw [Ledger.units, same, Ledger.units]
    obtain ⟨arena', stored, kept'⟩ := laws.store kept (same ▸ granted) inside target (units ▸ fits)
    exact ⟨arena', stored, kept', same⟩

/-- A block of units of the regions is placed on spots. -/
theorem Ledger.WellFormed.placed {unit : Nat} {ledger : Ledger} {b : FreeBlock}
    (h : ledger.WellFormed unit) (positive : 0 < unit) (nonempty : 0 < b.size)
    (owned : b.cells unit ⊆ ledger.cells unit) :
    b.Placed unit (· ∈ ledger.cells unit) (ledger.units unit) where
  nonempty := nonempty
  nonzero := Nat.ne_of_gt (h.cell_pos positive (owned (FreeBlock.address_mem_cells nonempty)))
  spot := owned (FreeBlock.address_mem_cells nonempty)
  stop_le := h.block_stop_le positive nonempty owned
  size_le := by
    have count : FreeBlock.units [b] ≤ ledger.units unit := units_le_of_owned positive
      (by simpa using nonempty) (List.pairwise_singleton _ _) (by simpa using owned)
    simpa [FreeBlock.units] using count

namespace Pool

open FreeBlock

variable {A : Type} [Arena A] {Keeps : A → Ledger → Prop} {pool pool' : Pool A}
  {ledger ledger' : Ledger} {blocks : List FreeBlock} {header : Header} {address : Nat}

/-- The pool has this free list. -/
structure Holds (Keeps : A → Ledger → Prop) (pool : Pool A) (ledger : Ledger)
    (blocks : List FreeBlock) : Prop where
  keeps : Keeps pool.arena ledger
  wellFormed : ledger.WellFormed (Arena.unit A)
  linked : Linked (pool.record? ledger) (sentinel :: blocks)
  separated : Separated (Arena.unit A) blocks
  nonempty : ∀ b ∈ blocks, 0 < b.size
  owned : allCells (Arena.unit A) blocks ⊆ ledger.cells (Arena.unit A)
  node : IsNode blocks pool.start
  unused : pool.freeList.cursor = none → blocks = []

/-- A pool that is strung on units of the regions holds the list if no blocks touch. -/
theorem Strung.holds {Spot : Nat → Prop} {most : Nat} {blocks' : List FreeBlock}
    (h : pool'.Strung (Arena.KeepsOver Keeps ledger.regions) Spot most ledger' blocks')
    (wellFormed : ledger.WellFormed (Arena.unit A)) (separated : Separated (Arena.unit A) blocks')
    (owned : allCells (Arena.unit A) blocks' ⊆ ledger.cells (Arena.unit A)) :
    pool'.Holds Keeps ledger' blocks' where
  keeps := h.keeps.1
  wellFormed := wellFormed.congr h.keeps.2
  linked := h.linked
  separated := separated
  nonempty := h.nonempty
  owned := by
    rw [Ledger.cells, h.keeps.2]
    exact owned
  node := h.node
  unused := h.unused

namespace Holds

theorem sentinel_eq (h : pool.Holds Keeps ledger blocks) :
    pool.freeList.sentinel = { size := 0, next := firstAddress blocks } :=
  Option.some.inj h.linked.1

/-- A ring may be searched from any of its nodes. -/
theorem withCursor (h : pool.Holds Keeps ledger blocks) (node : IsNode blocks address) :
    (pool.withCursor address).Holds Keeps ledger blocks where
  keeps := h.keeps
  wellFormed := h.wellFormed
  linked := h.linked
  separated := h.separated
  nonempty := h.nonempty
  owned := h.owned
  node := node
  unused := nofun

/-- A list with a block on it is in use already. -/
theorem withCursor_start {b : FreeBlock} (h : pool.Holds Keeps ledger blocks) (mem : b ∈ blocks) :
    pool.withCursor pool.start = pool := by
  cases used : pool.freeList.cursor with
  | some cursor => exact Pool.withCursor_start used
  | none => exact absurd (h.unused used ▸ mem) List.not_mem_nil

/-- An arena may change where no free block has its header. -/
theorem congr {Keeps' : A → Ledger → Prop} {arena : A} (h : pool.Holds Keeps ledger blocks)
    (regions : ledger'.regions = ledger.regions) (keeps : Keeps' arena ledger')
    (same : ∀ b ∈ blocks, ledger'.header? b.address = ledger.header? b.address) :
    ({ pool with arena } : Pool A).Holds Keeps' ledger' blocks where
  keeps := keeps
  wellFormed := h.wellFormed.congr regions
  linked := by
    apply h.linked.congr
    intro b mem
    unfold record?
    split
    · rfl
    · rcases List.mem_cons.1 mem with rfl | mem
      · exact absurd rfl ‹_›
      · exact same b mem
  separated := h.separated
  nonempty := h.nonempty
  owned := by
    rw [Ledger.cells, regions]
    exact h.owned
  node := h.node
  unused := h.unused

/-- The free list does not depend on how much more is known about the arena. -/
theorem recast {Keeps' : A → Ledger → Prop} (h : pool.Holds Keeps ledger blocks)
    (recalls : ledger.Recalls ledger') (keeps : Keeps' pool.arena ledger') :
    pool.Holds Keeps' ledger' blocks where
  keeps := keeps
  wellFormed := h.wellFormed.congr recalls.regions
  linked := by
    apply h.linked.mono
    intro x header known
    unfold record? at known ⊢
    split
    case isTrue sentinel => rwa [if_pos sentinel] at known
    case isFalse other =>
      rw [if_neg other] at known
      exact recalls.header? x header known
  separated := h.separated
  nonempty := h.nonempty
  owned := by
    rw [Ledger.cells, recalls.regions]
    exact h.owned
  node := h.node
  unused := h.unused

/-- A header beside the nodes is none of the list's business. -/
theorem wrote (h : pool.Holds Keeps ledger blocks)
    (wrote : Wrote (Arena.KeepsOver Keeps ledger.regions) address header pool ledger pool' ledger')
    (beside : ∀ b ∈ sentinel :: blocks, Beside (Arena.unit A) b.address address) :
    pool'.Holds Keeps ledger' blocks := by
  have frame := wrote.frame [address] (.inr List.mem_cons_self)
  constructor
  case keeps => exact wrote.keeps.1
  case wellFormed => exact frame.wellFormed h.wellFormed
  case linked => exact h.linked.congr fun b mem => wrote.record_beside _ (beside b mem)
  case separated => exact h.separated
  case nonempty => exact h.nonempty
  case owned => exact frame.cells_eq ▸ h.owned
  case node =>
    rw [start, wrote.cursor]
    exact h.node
  case unused => exact wrote.cursor ▸ h.unused

variable (laws : Arena.Laws Keeps) (h : pool.Holds Keeps ledger blocks)

include laws h

/-- There are units enough for one more block. -/
theorem room {b : FreeBlock} (nonempty : 0 < b.size)
    (owned : b.cells (Arena.unit A) ⊆ ledger.cells (Arena.unit A))
    (disjoint : ∀ c ∈ blocks, Disjoint (Arena.unit A) b c) :
    b.size + units blocks ≤ ledger.units (Arena.unit A) := by
  have nonempty' : ∀ c ∈ b :: blocks, 0 < c.size := by simpa [nonempty] using h.nonempty
  refine Ledger.units_le_of_owned laws.unit_pos nonempty'
    (List.pairwise_cons.2 ⟨disjoint, h.separated.pairwise_disjoint⟩) ?_
  exact List.append_subset.2 ⟨owned, h.owned⟩

theorem placed {b : FreeBlock} (mem : b ∈ blocks) :
    b.Placed (Arena.unit A) (· ∈ ledger.cells (Arena.unit A)) (ledger.units (Arena.unit A)) :=
  h.wellFormed.placed laws.unit_pos (h.nonempty b mem)
    fun _ cell => h.owned (mem_allCells.2 ⟨b, mem, cell⟩)

theorem strung : pool.Strung (Arena.KeepsOver Keeps ledger.regions)
    (· ∈ ledger.cells (Arena.unit A)) (ledger.units (Arena.unit A)) ledger blocks where
  keeps := ⟨h.keeps, rfl⟩
  linked := h.linked
  ordered := h.separated.ordered
  placed _ mem := h.placed laws mem
  node := h.node
  unused := h.unused

theorem address_pos {b : FreeBlock} (mem : b ∈ blocks) : b.address ≠ sentinelAddress :=
  (h.placed laws mem).nonzero

theorem ring : pool.Ring blocks :=
  (h.strung laws).ring (laws.slate h.wellFormed)

theorem blocks_eq : pool.blocks = .ok blocks :=
  (h.strung laws).blocks_eq (laws.slate h.wellFormed)

end Holds

end Pool

end NextFit
