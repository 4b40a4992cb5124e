import Mathlib.Data.List.Pairwise
import NextFit.Proofs.Heap.Layout
import NextFit.Proofs.Pool.Insert

/-! # What a heap accounts for

`heap.Accounts Keeps ledger free live` says that the units of the regions in the ledger are split
among the blocks of the free list and the live ones, that the header of each live block tells its
size, and that the heap has counted the regions and their units. It is kept by extending the arena,
by lending a free block out and by taking a live one back.
-/

namespace NextFit

namespace Region

theorem block_of_units {unit base n : Nat} (positive : 0 < unit) :
    block unit { start := base, stop := base + n * unit } = { address := base, size := n } := by
  simp only [block, Nat.add_sub_cancel_left, Nat.mul_div_cancel _ positive]

end Region

namespace Ledger

variable {unit base n : Nat} {ledger : Ledger}

theorem blocks_grant (positive : 0 < unit) :
    (ledger.grant base (n * unit)).regions.map (Region.block unit) =
      ledger.regions.map (Region.block unit) ++ [{ address := base, size := n }] := by
  rw [grant, List.map_append, List.map_singleton, Region.block_of_units positive]

theorem cells_grant (positive : 0 < unit) : (ledger.grant base (n * unit)).cells unit =
    ledger.cells unit ++ FreeBlock.cells unit { address := base, size := n } := by
  rw [cells, blocks_grant positive, FreeBlock.allCells_append, cells]
  simp

theorem units_grant (positive : 0 < unit) :
    (ledger.grant base (n * unit)).units unit = ledger.units unit + n := by
  rw [units, blocks_grant positive, units]
  simp [FreeBlock.units, FreeBlock.units_append]

theorem forall_mem_grant {P : Region → Prop} {bytes : Nat} (old : ∀ region ∈ ledger.regions, P region)
    (new : P { start := base, stop := base + bytes }) :
    ∀ region ∈ (ledger.grant base bytes).regions, P region := by
  intro region mem
  cases List.mem_append.1 mem with
  | inl earlier => exact old region earlier
  | inr last =>
      cases List.mem_singleton.1 last
      exact new

theorem WellFormed.grant (h : ledger.WellFormed unit) (nonempty : 0 < n) (nonzero : 1 ≤ base)
    (ends : base + n * unit ≤ Size.greatest)
    (fresh : ∀ region ∈ ledger.regions, region.Disjoint { start := base, stop := base + n * unit }) :
    (ledger.grant base (n * unit)).WellFormed unit := by
  constructor
  case start_pos => exact forall_mem_grant h.start_pos nonzero
  case stop_le => exact forall_mem_grant h.stop_le ends
  case whole => exact forall_mem_grant h.whole ⟨n, nonempty, rfl⟩
  case disjoint =>
    apply List.pairwise_append.2 ⟨h.disjoint, List.pairwise_singleton _ _, _⟩
    intro region mem other new
    cases List.mem_singleton.1 new
    exact fresh region mem

/-- What is known inside of these blocks is still known. -/
def Spares (unit : Nat) (blocks : List FreeBlock) (ledger ledger' : Ledger) : Prop :=
  ∀ b ∈ blocks, ∀ x, b.address ≤ x → x + unit ≤ b.stop unit → ledger'.header? x = ledger.header? x

namespace Spares

variable {blocks others : List FreeBlock} {ledger' ledger'' : Ledger}

theorem refl (unit : Nat) (blocks : List FreeBlock) (ledger : Ledger) :
    Spares unit blocks ledger ledger :=
  fun _ _ _ _ _ => rfl

theorem trans (first : Spares unit blocks ledger ledger') (second : Spares unit blocks ledger' ledger'') :
    Spares unit blocks ledger ledger'' :=
  fun b mem x low high => (second b mem x low high).trans (first b mem x low high)

theorem mono (h : Spares unit blocks ledger ledger') (fewer : others ⊆ blocks) :
    Spares unit others ledger ledger' :=
  fun b mem => h b (fewer mem)

theorem single (h : Spares unit blocks ledger ledger') {b : FreeBlock} (mem : b ∈ blocks) :
    Spares unit [b] ledger ledger' :=
  h.mono (List.cons_subset.2 ⟨mem, List.nil_subset _⟩)

/-- Headers were written to other blocks only. -/
theorem of_frame (frame : Frame unit (FreeBlock.allCells unit others) ledger ledger')
    (disjoint : ∀ b ∈ blocks, ∀ c ∈ others, FreeBlock.Disjoint unit b c) :
    Spares unit blocks ledger ledger' := by
  intro b mem x low high
  apply frame.header?
  intro y cell
  obtain ⟨c, other, part⟩ := FreeBlock.mem_allCells.1 cell
  have bounds := FreeBlock.cell_bounds part
  have apart := disjoint b mem c other
  simp only [FreeBlock.Disjoint, FreeBlock.Apart] at apart ⊢
  omega

end Spares

/-- What is known apart from the units of the second ledger was known before. -/
def SameOutside (unit : Nat) (ledger ledger' : Ledger) : Prop :=
  ∀ x, (∀ y ∈ ledger'.cells unit, FreeBlock.Apart unit x y) → ledger'.header? x = ledger.header? x

namespace SameOutside

variable {ledger' ledger'' : Ledger} {granted : List Region}

theorem refl (unit : Nat) (ledger : Ledger) : SameOutside unit ledger ledger :=
  fun _ _ => rfl

theorem trans (first : SameOutside unit ledger ledger') (second : SameOutside unit ledger' ledger'')
    (regions : ledger''.regions = ledger'.regions ++ granted) : SameOutside unit ledger ledger'' := by
  have wider : ledger'.cells unit ⊆ ledger''.cells unit := by
    rw [cells, cells, regions, List.map_append, FreeBlock.allCells_append]
    exact List.subset_append_left _ _
  intro x apart
  exact (second x apart).trans (first x fun y mem => apart y (wider mem))

/-- Headers were written to units of the regions only. -/
theorem of_frame {cells : List Nat} (frame : Frame unit cells ledger ledger')
    (owned : cells ⊆ ledger.cells unit) : SameOutside unit ledger ledger' :=
  fun x apart => frame.header? x fun y mem => apart y (frame.cells_eq ▸ owned mem)

/-- Bytes of a block were overwritten. -/
theorem overwrite {b : FreeBlock} {address count : Nat} (positive : 0 < unit) (nonempty : 0 < b.size)
    (owned : b.cells unit ⊆ ledger.cells unit) (low : b.address ≤ address)
    (high : address + count ≤ b.stop unit) :
    SameOutside unit ledger (ledger.overwrite unit address count) := by
  intro x apart
  have disjoint : FreeBlock.Disjoint unit { address := x, size := 1 } b := by
    apply FreeBlock.disjoint_of_apart positive Nat.one_pos nonempty
    intro y single z cell
    cases List.mem_singleton.1 single
    exact apart z (owned cell)
  simp only [FreeBlock.Disjoint, FreeBlock.stop, Nat.one_mul] at disjoint high
  exact header?_overwrite_of_apart (by omega)

/-- A block that shares no byte with the regions is left alone. -/
theorem spares (h : SameOutside unit ledger ledger') (wellFormed : ledger'.WellFormed unit)
    (positive : 0 < unit) {b : FreeBlock}
    (disjoint : ∀ region ∈ ledger'.regions, region.Disjoint (b.span unit)) :
    Spares unit [b] ledger ledger' := by
  intro c mem x low high
  cases List.mem_singleton.1 mem
  apply h
  intro y cell
  obtain ⟨region, granted, inside, -⟩ := wellFormed.exists_region positive cell
  obtain ⟨first, last⟩ := Region.contains_eq_true_iff.1 inside
  -- Otherwise the larger of the two addresses is a byte of both.
  have shared := disjoint region granted (max x y)
  simp only [Region.mem_def, FreeBlock.span] at shared
  rw [FreeBlock.Apart]
  omega

end SameOutside

end Ledger

open FreeBlock

theorem Pool.Holds.grant {A : Type} [Arena A] {Keeps : A → Ledger → Prop} {pool : Pool A}
    {ledger : Ledger} {blocks : List FreeBlock} {arena : A} {base n : Nat}
    (h : pool.Holds Keeps ledger blocks) (positive : 0 < Arena.unit A)
    (keeps : Keeps arena (ledger.grant base (n * Arena.unit A)))
    (wellFormed : (ledger.grant base (n * Arena.unit A)).WellFormed (Arena.unit A)) :
    ({ pool with arena } : Pool A).Holds Keeps (ledger.grant base (n * Arena.unit A)) blocks where
  keeps := keeps
  wellFormed := wellFormed
  linked := h.linked
  separated := h.separated
  nonempty := h.nonempty
  owned := Ledger.cells_grant positive ▸ List.subset_append_of_subset_left _ h.owned
  node := h.node
  unused := h.unused

namespace Heap

variable {A : Type} [Arena A] {Keeps : A → Ledger → Prop} {heap : Heap A} {ledger : Ledger}
  {free live : List FreeBlock}

/-- The regions are split among the free and the live blocks. -/
structure Accounts (Keeps : A → Ledger → Prop) (heap : Heap A) (ledger : Ledger)
    (free live : List FreeBlock) : Prop where
  holds : heap.pool.Holds Keeps ledger free
  tile : Tile (Arena.unit A) (free ++ live) (ledger.regions.map (Region.block (Arena.unit A)))
  nonempty : ∀ b ∈ live, 0 < b.size
  header : ∀ b ∈ live, ∃ next, ledger.header? b.address = some { size := b.size, next }
  arenaUnits : heap.arenaUnits = ledger.units (Arena.unit A)
  extensions : heap.extensions = ledger.regions.length

theorem Accounts.new {arena : A} (keeps : Keeps arena {}) (config : HeapConfig) :
    (new arena config).Accounts Keeps {} [] [] where
  holds := {
    keeps
    wellFormed := .empty _
    linked := ⟨rfl, trivial⟩
    separated := .nil
    nonempty := by simp
    owned := List.nil_subset _
    node := .inl rfl
    unused := fun _ => rfl }
  tile := .nil
  nonempty := by simp
  header := by simp
  arenaUnits := rfl
  extensions := rfl

namespace Accounts

/-- The order of the live blocks does not matter. -/
theorem perm {live' : List FreeBlock} (h : heap.Accounts Keeps ledger free live)
    (same : live'.Perm live) : heap.Accounts Keeps ledger free live' where
  holds := h.holds
  tile := (Tile.of_perm (same.append_left free)).trans h.tile
  nonempty := fun b mem => h.nonempty b (same.subset mem)
  header := fun b mem => h.header b (same.subset mem)
  arenaUnits := h.arenaUnits
  extensions := h.extensions

theorem recast {Keeps' : A → Ledger → Prop} {ledger' : Ledger}
    (h : heap.Accounts Keeps ledger free live) (recalls : ledger.Recalls ledger')
    (keeps : Keeps' heap.arena ledger') : heap.Accounts Keeps' ledger' free live where
  holds := h.holds.recast recalls keeps
  tile := recalls.regions ▸ h.tile
  nonempty := h.nonempty
  header := by
    intro b mem
    obtain ⟨next, known⟩ := h.header b mem
    exact ⟨next, recalls.header? _ _ known⟩
  arenaUnits := by
    rw [Ledger.units, recalls.regions]
    exact h.arenaUnits
  extensions := recalls.regions ▸ h.extensions

theorem block_nonempty (h : heap.Accounts Keeps ledger free live) : ∀ b ∈ free ++ live, 0 < b.size := by
  intro b mem
  cases List.mem_append.1 mem with
  | inl inFree => exact h.holds.nonempty b inFree
  | inr inLive => exact h.nonempty b inLive

theorem cells_subset (h : heap.Accounts Keeps ledger free live) {b : FreeBlock}
    (mem : b ∈ free ++ live) : b.cells (Arena.unit A) ⊆ ledger.cells (Arena.unit A) :=
  fun _ cell => h.tile.subset (mem_allCells.2 ⟨b, mem, cell⟩)

theorem pairwise_disjoint (laws : Arena.Laws Keeps) (h : heap.Accounts Keeps ledger free live) :
    (free ++ live).Pairwise (Disjoint (Arena.unit A)) :=
  h.tile.pairwise_disjoint laws.unit_pos h.block_nonempty
    (h.holds.wellFormed.block_nonempty laws.unit_pos)
    (h.holds.wellFormed.pairwise_disjoint_block laws.unit_pos)

/-- The blocks have just the bytes of the regions. -/
theorem occupied_iff (laws : Arena.Laws Keeps) (h : heap.Accounts Keeps ledger free live) {x : Nat} :
    Occupied (Arena.unit A) (free ++ live) x ↔ ∃ region ∈ ledger.regions, x ∈ region :=
  (h.tile.occupied_iff laws.unit_pos).trans (h.holds.wellFormed.occupied_iff laws.unit_pos)

/-- What is not live is free. -/
theorem occupied_free_iff (laws : Arena.Laws Keeps) (h : heap.Accounts Keeps ledger free live)
    {x : Nat} : Occupied (Arena.unit A) free x ↔
      (∃ region ∈ ledger.regions, x ∈ region) ∧ ¬ Occupied (Arena.unit A) live x := by
  rw [← h.occupied_iff laws]
  constructor
  · rintro ⟨b, inFree, low, high⟩
    refine ⟨⟨b, List.mem_append_left _ inFree, low, high⟩, ?_⟩
    intro ⟨c, inLive, low', high'⟩
    have disjoint := (List.pairwise_append.1 (h.pairwise_disjoint laws)).2.2 b inFree c inLive
    simp only [FreeBlock.Disjoint, span] at disjoint low high low' high'
    omega
  · rintro ⟨⟨b, mem, inside⟩, notLive⟩
    refine ⟨b, (List.mem_append.1 mem).resolve_right ?_, inside⟩
    intro inLive
    exact notLive ⟨b, inLive, inside⟩

/-- A block lies on the grid of units of each region that it has a byte of. -/
theorem aligned (laws : Arena.Laws Keeps) (h : heap.Accounts Keeps ledger free live) {b : FreeBlock}
    (mem : b ∈ free ++ live) {region : Region} (granted : region ∈ ledger.regions) {x : Nat}
    (inBlock : x ∈ b.span (Arena.unit A)) (inRegion : x ∈ region) :
    b.address % Arena.unit A = region.start % Arena.unit A := by
  have wellFormed := h.holds.wellFormed
  obtain ⟨y, cell, low, high⟩ := exists_cell laws.unit_pos inBlock
  obtain ⟨other, granted', inside, j, grid⟩ :=
    wellFormed.exists_region laws.unit_pos (h.cells_subset mem cell)
  have bounds := Region.contains_eq_true_iff.1 inside
  have same : other = region := by
    apply Decidable.byContradiction
    intro apart
    have disjoint := wellFormed.disjoint.forall granted' granted apart
    exact disjoint x ⟨by omega, by omega⟩ inRegion
  obtain ⟨i, -, place⟩ := mem_cells.1 cell
  have left := Nat.add_mul_mod_self_right b.address i (Arena.unit A)
  have right := Nat.add_mul_mod_self_right region.start j (Arena.unit A)
  rw [← left, ← right, ← place, grid, same]

/-- The heap's counts stay sizes. -/
theorem extensions_le (laws : Arena.Laws Keeps) (h : heap.Accounts Keeps ledger free live) :
    heap.extensions ≤ heap.arenaUnits := by
  have count := length_le_units (h.holds.wellFormed.block_nonempty laws.unit_pos)
  rw [List.length_map] at count
  rw [h.extensions, h.arenaUnits]
  exact count

/-- The headers of spared blocks stand. -/
theorem header_of_spares {kept : List FreeBlock} {ledger' : Ledger}
    (h : heap.Accounts Keeps ledger free live)
    (spares : Ledger.Spares (Arena.unit A) kept ledger ledger') {b : FreeBlock} (mem : b ∈ kept)
    (inLive : b ∈ live) : ∃ next, ledger'.header? b.address = some { size := b.size, next } := by
  have head : b.address ∈ b.cells (Arena.unit A) := address_mem_cells (h.nonempty b inLive)
  rw [spares b mem b.address (Nat.le_refl _) (cell_bounds head).2]
  exact h.header b inLive

end Accounts

/-- What a step comes to that started with `ledger` and had to leave the blocks in `kept` alone. -/
structure Reaches (Keeps : A → Ledger → Prop) (ledger : Ledger) (kept : List FreeBlock)
    (heap' : Heap A) (ledger' : Ledger) (layout : Layout) (live : List FreeBlock)
    (granted : List Region) : Prop where
  accounts : heap'.Accounts Keeps ledger' layout.free live
  layout : heap'.layout layout.free = layout
  regions : ledger'.regions = ledger.regions ++ granted
  spares : Ledger.Spares (Arena.unit A) kept ledger ledger'
  outside : Ledger.SameOutside (Arena.unit A) ledger ledger'

theorem Reaches.trans {heap' heap'' : Heap A} {ledger' ledger'' : Ledger} {layout' layout'' : Layout}
    {kept live' live'' : List FreeBlock} {granted granted' : List Region}
    (first : Reaches Keeps ledger kept heap' ledger' layout' live' granted)
    (second : Reaches Keeps ledger' kept heap'' ledger'' layout'' live'' granted') :
    Reaches Keeps ledger kept heap'' ledger'' layout'' live'' (granted ++ granted') where
  accounts := second.accounts
  layout := second.layout
  regions := by rw [second.regions, first.regions, List.append_assoc]
  spares := first.spares.trans second.spares
  outside := first.outside.trans second.outside second.regions

/-- A live block goes back to the free list. -/
theorem Accounts.insert {b : FreeBlock} (laws : Arena.Laws Keeps)
    (h : heap.Accounts Keeps ledger free (b :: live)) :
    ∃ heap' ledger', (inPool (Pool.insert b.address)).Yields heap (.ok ()) heap' ∧
      Reaches Keeps ledger live heap' ledger' ((heap.layout free).release (Arena.unit A) b) live [] := by
  have disjoint := h.pairwise_disjoint laws
  rw [List.pairwise_middle FreeBlock.Disjoint.symm] at disjoint
  obtain ⟨others, rest⟩ := List.pairwise_cons.1 disjoint
  obtain ⟨next, header⟩ := h.header b List.mem_cons_self
  obtain ⟨pool', ledger', inserted, holds, cursor, frame⟩ := h.holds.insert laws
    (h.nonempty b List.mem_cons_self) header (h.cells_subset (by simp))
    fun c mem => others c (List.mem_append_left _ mem)
  have spares : Ledger.Spares (Arena.unit A) live ledger ledger' := by
    apply Ledger.Spares.of_frame frame
    intro c mem d inside
    rcases List.mem_cons.1 inside with rfl | inFree
    · exact (others c (List.mem_append_right _ mem)).symm
    · exact ((List.pairwise_append.1 rest).2.2 d inFree c mem).symm
  refine ⟨{ heap with pool := pool' }, ledger', .on inserted, ?_⟩
  constructor
  case accounts =>
    constructor
    case holds => exact holds
    case tile =>
      rw [frame.regions]
      exact ((tile_release _ b free).append live).trans
        ((Tile.of_perm List.perm_middle.symm).trans h.tile)
    case nonempty => exact fun c mem => h.nonempty c (List.mem_cons_of_mem _ mem)
    case header =>
      exact fun c mem => h.header_of_spares spares mem (List.mem_cons_of_mem _ mem)
    case arenaUnits =>
      rw [frame.units_eq]
      exact h.arenaUnits
    case extensions =>
      rw [frame.regions]
      exact h.extensions
  case layout =>
    simp only [Heap.layout, Layout.release, Pool.start, cursor, Option.getD_some]
  case regions => rw [frame.regions, List.append_nil]
  case spares => exact spares
  case outside =>
    apply Ledger.SameOutside.of_frame frame
    rw [allCells_cons]
    exact List.append_subset.2 ⟨h.cells_subset (by simp), h.holds.owned⟩

/-! ## Extensions -/

/-- A heap that was granted memory and has written its header holds it like a live block. -/
theorem Accounts.grant {arena : A} {base n : Nat} (laws : Arena.Laws Keeps)
    (h : heap.Accounts Keeps ledger free live) (nonempty : 0 < n)
    (keeps : Keeps arena (ledger.grant base (n * Arena.unit A)))
    (wellFormed : (ledger.grant base (n * Arena.unit A)).WellFormed (Arena.unit A)) :
    ∃ pool' ledger', (Pool.inArena (Arena.store base { size := n, next := base })).Yields
        { heap.pool with arena } (.ok ()) pool' ∧
      Reaches Keeps ledger live
        { heap with
          pool := pool'
          arenaUnits := heap.arenaUnits + n
          extensions := heap.extensions + 1 } ledger'
        { heap.layout free with
          arenaUnits := heap.arenaUnits + n
          extensions := heap.extensions + 1 }
        ({ address := base, size := n } :: live)
        [{ start := base, stop := base + n * Arena.unit A }] := by
  have holds := h.holds.grant laws.unit_pos keeps wellFormed
  have cell : base ∈ (ledger.grant base (n * Arena.unit A)).cells (Arena.unit A) := by
    rw [Ledger.cells_grant laws.unit_pos]
    exact List.mem_append_right _ (address_mem_cells nonempty)
  have total : (ledger.grant base (n * Arena.unit A)).units (Arena.unit A) =
      ledger.units (Arena.unit A) + n := Ledger.units_grant laws.unit_pos
  obtain ⟨pool', ledger', set, wrote⟩ := Pool.yields_setHeader (laws.slate wellFormed)
    (holds.strung laws).keeps { size := n, next := base } (.inr cell) (.inr cell)
    (by rw [total]; exact Nat.le_add_left _ _)
  have positive : base ≠ sentinelAddress := Nat.ne_of_gt (wellFormed.cell_pos laws.unit_pos cell)
  rw [Pool.setHeader, if_neg positive] at set
  have frame := wrote.frame [base] (.inr List.mem_cons_self)
  -- The old units are apart from the new ones.
  have apart := wellFormed.pairwise_apart_cells laws.unit_pos
  rw [Ledger.cells_grant laws.unit_pos] at apart
  have old : ∀ b ∈ free ++ live, ∀ x ∈ b.cells (Arena.unit A),
      ∀ y ∈ cells (Arena.unit A) { address := base, size := n }, Apart (Arena.unit A) x y := by
    intro b mem x inside y new
    exact (List.pairwise_append.1 apart).2.2 x (h.cells_subset mem inside) y new
  have spares : Ledger.Spares (Arena.unit A) live ledger ledger' := by
    have inside : [base] ⊆ allCells (Arena.unit A) [{ address := base, size := n }] :=
      List.cons_subset.2 ⟨List.mem_append_left _ (address_mem_cells nonempty), List.nil_subset _⟩
    apply Ledger.Spares.of_frame (frame.mono inside)
    intro b mem c new
    cases List.mem_singleton.1 new
    exact disjoint_of_apart laws.unit_pos (h.nonempty b mem) nonempty
      (old b (List.mem_append_right _ mem))
  have beside : ∀ b ∈ sentinel :: free, Beside (Arena.unit A) b.address base :=
    beside_nodes laws.unit_pos positive fun b mem =>
      old b (List.mem_append_left _ mem) b.address (address_mem_cells (h.holds.nonempty b mem)) base
        (address_mem_cells nonempty)
  refine ⟨pool', ledger', set, ?_⟩
  constructor
  case accounts =>
    constructor
    case holds => exact holds.wrote wrote beside
    case tile =>
      rw [frame.regions, Ledger.blocks_grant laws.unit_pos]
      have moved : (free ++ { address := base, size := n } :: live).Perm
          ((free ++ live) ++ [{ address := base, size := n }]) :=
        List.perm_middle.trans (List.perm_append_singleton _ _).symm
      exact (Tile.of_perm moved).trans (h.tile.append _)
    case nonempty =>
      intro b mem
      rcases List.mem_cons.1 mem with rfl | mem
      · exact nonempty
      · exact h.nonempty b mem
    case header =>
      intro b mem
      rcases List.mem_cons.1 mem with rfl | mem
      · exact ⟨base, (Pool.record?_of_ne positive).symm.trans wrote.record_self⟩
      · exact h.header_of_spares spares mem mem
    case arenaUnits =>
      rw [frame.units_eq, total]
      exact congrArg (· + n) h.arenaUnits
    case extensions =>
      rw [frame.regions]
      simp [Ledger.grant, h.extensions]
  case layout =>
    have cursor : pool'.freeList.cursor = heap.pool.freeList.cursor := wrote.cursor
    simp only [Heap.layout, Pool.start, cursor]
  case regions => exact frame.regions
  case spares => exact spares
  case outside =>
    have units : (ledger.grant base (n * Arena.unit A)).SameOutside (Arena.unit A) ledger' :=
      .of_frame frame (List.cons_subset.2 ⟨cell, List.nil_subset _⟩)
    exact units

theorem Accounts.countExtension {n : Nat} (laws : Arena.Laws Keeps)
    (h : heap.Accounts Keeps ledger free live) (nonempty : 0 < n)
    (few : ledger.units (Arena.unit A) + n < Size.bound) (pool : Pool A) :
    (countExtension n).Yields { heap with pool } (.ok ())
      { heap with
        pool
        arenaUnits := heap.arenaUnits + n
        extensions := heap.extensions + 1 } := by
  have units : Size.add heap.arenaUnits n = .ok (heap.arenaUnits + n) :=
    Size.add_of_lt (h.arenaUnits ▸ few)
  have count : Size.add heap.extensions 1 = .ok (heap.extensions + 1) := by
    have less := h.extensions_le laws
    rw [← h.arenaUnits] at few
    exact Size.add_of_lt (by omega)
  exact .bind .state (.bind (.lift units) (.bind (.update _) (.bind (.lift count) (.update _))))

theorem extend_overlarge {needed : Nat}
    (large : Size.bound ≤ (heap.layout free).demand needed * Arena.unit A) :
    (extend needed).Yields heap (.error (.refused (.outOfMemory Size.greatest))) heap := by
  have product : Size.mul? (max needed heap.config.minExtensionUnits) (Arena.unit A) = none :=
    if_neg (Nat.not_lt.2 large)
  apply Op.Yields.bind .state
  simp only [product]
  exact .refuse _

theorem Accounts.extend_declined {needed : Nat} {failure : Failure} (laws : Arena.Laws Keeps)
    (h : heap.Accounts Keeps ledger free live)
    (fits : (heap.layout free).demand needed * Arena.unit A < Size.bound)
    (answer : Arena.reply heap.arena ((heap.layout free).demand needed * Arena.unit A) =
      .error failure) :
    ∃ arena', (extend needed).Yields heap (.error failure) (heap.withArena arena') ∧
      (heap.withArena arena').Accounts Keeps ledger free live ∧
      Arena.Declined heap.arena arena' := by
  have product := Size.mul?_eq_some_iff.2 ⟨fits, rfl⟩
  have asked : (Arena.extend ((heap.layout free).demand needed * Arena.unit A)).Yields heap.arena
      (.error failure) _ := ⟨answer, rfl⟩
  have kept := laws.refused h.holds.keeps asked
  refine ⟨_, .bind .state ?_, ?_, .inr ⟨_, _, asked⟩⟩
  · simp only [Layout.demand, layout] at product asked
    simp only [product]
    exact .bind_error (.reportRefusal (.on (.on asked)))
  · exact { h with holds := h.holds.congr rfl kept fun _ _ => rfl }

/-- An extension puts what it was granted with the free blocks. -/
theorem Accounts.extend {needed base : Nat} (laws : Arena.Laws Keeps)
    (h : heap.Accounts Keeps ledger free live) (positive : 0 < needed)
    (fits : (heap.layout free).demand needed * Arena.unit A < Size.bound)
    (answer : Arena.reply heap.arena ((heap.layout free).demand needed * Arena.unit A) = .ok base) :
    ∃ heap' ledger', (extend needed).Yields heap (.ok ()) heap' ∧
      Reaches Keeps ledger live heap' ledger'
        ((heap.layout free).grow (Arena.unit A)
          { address := base, size := (heap.layout free).demand needed })
        live
        [{ start := base, stop := base + (heap.layout free).demand needed * Arena.unit A }] := by
  have product := Size.mul?_eq_some_iff.2 ⟨fits, rfl⟩
  have asked : (Arena.extend ((heap.layout free).demand needed * Arena.unit A)).Yields heap.arena
      (.ok base) _ := ⟨answer, rfl⟩
  have nonempty : 0 < (heap.layout free).demand needed :=
    Nat.lt_of_lt_of_le positive (Nat.le_max_left _ _)
  have grown : max needed heap.config.minExtensionUnits = (heap.layout free).demand needed := rfl
  generalize (heap.layout free).demand needed = n at *
  obtain ⟨nonzero, ends, fresh, keeps⟩ := laws.granted h.holds.keeps asked
  have wellFormed := h.holds.wellFormed.grant nonempty nonzero ends fresh
  have few := wellFormed.units_lt laws.unit_pos
  rw [Ledger.units_grant laws.unit_pos] at few
  have counted := h.countExtension laws nonempty few
    { heap.pool with arena := (Arena.extend (n * Arena.unit A) heap.arena).state }
  obtain ⟨pool', ledger₁, stored, reached₁⟩ := h.grant laws nonempty keeps wellFormed
  obtain ⟨heap', ledger', inserted, reached⟩ := reached₁.accounts.insert laws
  refine ⟨heap', ledger', .bind .state ?_, ?_⟩
  · simp only [grown, product]
    refine .bind (.reportRefusal (.on (.on asked))) (.bind (.report _) ?_)
    exact .bind counted (.bind (.on stored) inserted)
  · rw [reached₁.layout] at reached
    exact reached₁.trans reached

end Heap

end NextFit
