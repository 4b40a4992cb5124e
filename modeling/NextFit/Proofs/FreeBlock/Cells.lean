import NextFit.FreeBlock
import NextFit.Region

/-! # Header units of blocks

A block spans whole header units, and its `cells` are the addresses of these units. Two lists of
blocks `Tile` the same memory if they have the same cells, each the same number of times. Handing a
block out, giving it back, cutting it and joining it to its neighbour all keep the cells, so a tiling
of an arena by free and live blocks survives every step of a heap. What a client sees of a tiling is
derived from it here: no two blocks overlap, the blocks cover just the bytes of the regions, and the
units add up.
-/

namespace NextFit

namespace Region

instance : Membership Nat Region where
  mem region x := region.start ≤ x ∧ x < region.stop

theorem mem_def {region : Region} {x : Nat} : x ∈ region ↔ region.start ≤ x ∧ x < region.stop :=
  Iff.rfl

/-- Two regions share no byte. -/
def Disjoint (region other : Region) : Prop :=
  ∀ x ∈ region, x ∉ other

instance : Std.Symm Disjoint :=
  ⟨fun _ _ h x mem other => h x other mem⟩

theorem disjoint_of_le {region other : Region}
    (h : region.stop ≤ other.start ∨ other.stop ≤ region.start) : region.Disjoint other := by
  intro x mem mem'
  rw [mem_def] at mem mem'
  omega

/-- The whole units of a region as one block. -/
def block (unit : Nat) (region : Region) : FreeBlock :=
  { address := region.start, size := (region.stop - region.start) / unit }

end Region

namespace FreeBlock

variable {unit x : Nat} {block b c : FreeBlock} {blocks others : List FreeBlock}

/-- The bytes of a block. -/
def span (unit : Nat) (block : FreeBlock) : Region :=
  { start := block.address, stop := block.stop unit }

/-- Some block of the list has the byte. -/
def Occupied (unit : Nat) (blocks : List FreeBlock) (x : Nat) : Prop :=
  ∃ b ∈ blocks, x ∈ b.span unit

/-- The addresses of the units that a block spans. -/
def cells (unit : Nat) (block : FreeBlock) : List Nat :=
  List.range' block.address block.size unit

def allCells (unit : Nat) (blocks : List FreeBlock) : List Nat :=
  blocks.flatMap (cells unit)

/-- Two lists of blocks consist of the same units. -/
def Tile (unit : Nat) (blocks others : List FreeBlock) : Prop :=
  (allCells unit blocks).Perm (allCells unit others)

/-- Two units share no byte. -/
def Apart (unit x y : Nat) : Prop :=
  x + unit ≤ y ∨ y + unit ≤ x

theorem mem_cells : x ∈ block.cells unit ↔ ∃ k < block.size, x = block.address + k * unit := by
  simp only [cells, List.mem_range', Nat.mul_comm]

theorem address_mem_cells (nonempty : 0 < block.size) : block.address ∈ block.cells unit :=
  mem_cells.2 ⟨0, nonempty, by simp⟩

theorem mem_allCells : x ∈ allCells unit blocks ↔ ∃ b ∈ blocks, x ∈ b.cells unit :=
  List.mem_flatMap

@[simp] theorem allCells_nil : allCells unit [] = [] :=
  rfl

@[simp] theorem allCells_cons :
    allCells unit (block :: blocks) = block.cells unit ++ allCells unit blocks :=
  rfl

@[simp] theorem allCells_append :
    allCells unit (blocks ++ others) = allCells unit blocks ++ allCells unit others :=
  List.flatMap_append

theorem units_append (blocks others : List FreeBlock) :
    units (blocks ++ others) = units blocks + units others := by
  induction blocks with
  | nil => exact (Nat.zero_add _).symm
  | cons b rest ih => rw [List.cons_append, units, units, ih, Nat.add_assoc]

theorem length_allCells (unit : Nat) (blocks : List FreeBlock) :
    (allCells unit blocks).length = units blocks := by
  induction blocks with
  | nil => rfl
  | cons b rest ih => simp [units, cells, ih]

theorem length_le_units (nonempty : ∀ b ∈ blocks, 0 < b.size) : blocks.length ≤ units blocks := by
  induction blocks with
  | nil => exact Nat.le_refl _
  | cons b rest ih =>
      have first := nonempty b List.mem_cons_self
      have later := ih fun c mem => nonempty c (List.mem_cons_of_mem _ mem)
      simp only [units, List.length_cons] at later ⊢
      omega

theorem size_le_units (mem : b ∈ blocks) : b.size ≤ units blocks := by
  obtain ⟨low, high, rfl⟩ := List.append_of_mem mem
  rw [units_append, units]
  omega

theorem units_le_of_sublist (h : blocks.Sublist others) : units blocks ≤ units others := by
  induction h with
  | slnil => exact Nat.le_refl _
  | cons b _ ih => exact Nat.le_trans ih (Nat.le_add_left _ _)
  | cons_cons b _ ih => exact Nat.add_le_add_left ih _

theorem cells_add (unit address m n : Nat) :
    cells unit { address, size := m + n } =
      cells unit { address, size := m } ++ cells unit { address := address + m * unit, size := n } := by
  simp only [cells, Nat.mul_comm m unit]
  exact List.range'_append.symm

/-! ## Units of changed lists -/

theorem allCells_pushFront :
    allCells unit (pushFront unit block blocks) = block.cells unit ++ allCells unit blocks := by
  cases blocks with
  | nil => rfl
  | cons first rest =>
      simp only [pushFront]
      split
      case isTrue touch =>
        have joined := cells_add unit block.address block.size first.size
        rw [show block.address + block.size * unit = first.address from touch] at joined
        rw [allCells_cons, joined, List.append_assoc]
        rfl
      case isFalse => rfl

/-- Releasing a block adds its units and no others. -/
theorem tile_release (unit : Nat) (block : FreeBlock) (blocks : List FreeBlock) :
    Tile unit (release unit block blocks) (block :: blocks) := by
  induction blocks with
  | nil => exact .refl _
  | cons first rest ih =>
      simp only [release]
      split
      · rw [Tile, allCells_pushFront]
        exact .refl _
      · rw [Tile, allCells_pushFront]
        have swapped : (first.cells unit ++ allCells unit (block :: rest)).Perm
            (allCells unit (block :: first :: rest)) := by
          simp only [allCells_cons, ← List.append_assoc]
          exact List.perm_append_comm.append_right _
        exact (ih.append_left _).trans swapped

theorem Tile.of_perm (h : blocks.Perm others) : Tile unit blocks others :=
  h.flatMap_right _

theorem Tile.append (rest : List FreeBlock) (h : Tile unit blocks others) :
    Tile unit (blocks ++ rest) (others ++ rest) := by
  simp only [Tile, allCells_append]
  exact h.append_right _

theorem Tile.units_eq (h : Tile unit blocks others) : units blocks = units others := by
  rw [← length_allCells unit, ← length_allCells unit]
  exact h.length_eq

/-! ## Units and bytes -/

theorem cell_bounds (h : x ∈ block.cells unit) :
    block.address ≤ x ∧ x + unit ≤ block.stop unit := by
  obtain ⟨k, inside, rfl⟩ := mem_cells.1 h
  have last : (k + 1) * unit ≤ block.size * unit := Nat.mul_le_mul_right _ inside
  simp only [stop, Nat.add_mul] at last ⊢
  omega

theorem exists_cell (positive : 0 < unit) (h : x ∈ block.span unit) :
    ∃ y ∈ block.cells unit, y ≤ x ∧ x < y + unit := by
  obtain ⟨low, high⟩ := h
  simp only [span, stop] at low high
  have quotient := Nat.div_add_mod (x - block.address) unit
  have remainder := Nat.mod_lt (x - block.address) positive
  rw [Nat.mul_comm] at quotient
  refine ⟨_, mem_cells.2 ⟨(x - block.address) / unit, ?_, rfl⟩, by omega, by omega⟩
  rw [Nat.div_lt_iff_lt_mul positive]
  omega

theorem mem_span_iff (positive : 0 < unit) :
    x ∈ block.span unit ↔ ∃ y ∈ block.cells unit, y ≤ x ∧ x < y + unit := by
  refine ⟨exists_cell positive, ?_⟩
  intro ⟨y, mem, low, high⟩
  have bounds := cell_bounds mem
  exact ⟨Nat.le_trans bounds.1 low, Nat.lt_of_lt_of_le high bounds.2⟩

theorem occupied_iff (positive : 0 < unit) :
    Occupied unit blocks x ↔ ∃ y ∈ allCells unit blocks, y ≤ x ∧ x < y + unit := by
  simp only [Occupied, mem_span_iff positive, mem_allCells]
  grind

theorem Tile.occupied_iff (positive : 0 < unit) (h : Tile unit blocks others) :
    Occupied unit blocks x ↔ Occupied unit others x := by
  simp only [FreeBlock.occupied_iff positive, h.mem_iff]

/-! ## Overlap -/

theorem Apart.symm {x y : Nat} (h : Apart unit x y) : Apart unit y x :=
  Or.symm h

theorem pairwise_apart_cells (unit : Nat) (block : FreeBlock) :
    (block.cells unit).Pairwise (Apart unit) := by
  rw [cells, List.pairwise_iff_getElem]
  intro i j _ _ lt
  have step : unit * (i + 1) ≤ unit * j := Nat.mul_le_mul_left _ lt
  rw [Nat.mul_add] at step
  simp only [List.getElem_range', Apart]
  omega

theorem Disjoint.symm (h : Disjoint unit b c) : Disjoint unit c b :=
  Or.symm h

theorem Disjoint.apart (h : Disjoint unit b c) {x y : Nat} (hx : x ∈ b.cells unit)
    (hy : y ∈ c.cells unit) : Apart unit x y := by
  have boundsB := cell_bounds hx
  have boundsC := cell_bounds hy
  simp only [Disjoint] at h
  simp only [Apart]
  omega

theorem Disjoint.address_ne (positive : 0 < unit) (h : Disjoint unit b c) (hb : 0 < b.size)
    (hc : 0 < c.size) : b.address ≠ c.address := by
  have apart := h.apart (address_mem_cells hb) (address_mem_cells hc)
  simp only [Apart] at apart
  omega

/-- Blocks whose units share no byte share no byte. -/
theorem disjoint_of_apart (positive : 0 < unit) (hb : 0 < b.size) (hc : 0 < c.size)
    (apart : ∀ x ∈ b.cells unit, ∀ y ∈ c.cells unit, Apart unit x y) : Disjoint unit b c := by
  have bytes : ∀ {d e : FreeBlock}, 0 < e.size → ¬ d.stop unit ≤ e.address → d.address ≤ e.address →
      ∃ x ∈ d.cells unit, ¬ Apart unit x e.address := by
    intro d e _ late order
    have inside : e.address ∈ d.span unit := ⟨order, Nat.not_le.1 late⟩
    obtain ⟨x, mem, low, high⟩ := exists_cell positive inside
    exact ⟨x, mem, by simp only [Apart]; omega⟩
  rw [Disjoint]
  apply Decidable.byContradiction
  intro overlap
  rw [not_or] at overlap
  cases Nat.le_total b.address c.address with
  | inl order =>
      obtain ⟨x, mem, near⟩ := bytes hc overlap.1 order
      exact near (apart x mem _ (address_mem_cells hc))
  | inr order =>
      obtain ⟨x, mem, near⟩ := bytes hb overlap.2 order
      exact near (apart _ (address_mem_cells hb) x mem).symm

theorem pairwise_disjoint_iff (positive : 0 < unit) (nonempty : ∀ b ∈ blocks, 0 < b.size) :
    blocks.Pairwise (Disjoint unit) ↔ (allCells unit blocks).Pairwise (Apart unit) := by
  rw [allCells, List.pairwise_flatMap]
  constructor
  · intro h
    refine ⟨fun b _ => pairwise_apart_cells unit b, h.imp ?_⟩
    intro b c disjoint x hx y hy
    exact disjoint.apart hx hy
  · rintro ⟨-, h⟩
    exact h.imp_of_mem fun hb hc apart =>
      disjoint_of_apart positive (nonempty _ hb) (nonempty _ hc) apart

theorem Tile.pairwise_disjoint (positive : 0 < unit) (h : Tile unit blocks others)
    (nonempty : ∀ b ∈ blocks, 0 < b.size) (nonempty' : ∀ b ∈ others, 0 < b.size)
    (disjoint : others.Pairwise (Disjoint unit)) : blocks.Pairwise (Disjoint unit) := by
  rw [pairwise_disjoint_iff positive nonempty, h.pairwise_iff Apart.symm]
  exact (pairwise_disjoint_iff positive nonempty').1 disjoint

theorem Separated.pairwise_disjoint (h : Separated unit blocks) :
    blocks.Pairwise (Disjoint unit) :=
  h.imp fun gap => .inl (Nat.le_of_lt gap)

theorem nodup_of_apart (positive : 0 < unit) {xs : List Nat} (h : xs.Pairwise (Apart unit)) :
    xs.Nodup := by
  apply h.imp
  intro x y apart
  rintro rfl
  simp only [Apart] at apart
  omega

/-- A unit of a tiling is in one block of it only. -/
theorem Tile.countP_eq_one (positive : 0 < unit) (h : Tile unit blocks others)
    (disjoint : blocks.Pairwise (Disjoint unit)) (mem : x ∈ allCells unit others) :
    blocks.countP (fun b => b.address ≤ x ∧ x + unit ≤ b.stop unit) = 1 := by
  obtain ⟨b, hb, cell⟩ := mem_allCells.1 (h.mem_iff.2 mem)
  have inside := cell_bounds cell
  obtain ⟨low, high, rfl⟩ := List.append_of_mem hb
  have others : ∀ c ∈ low ++ high, ¬ (c.address ≤ x ∧ x + unit ≤ c.stop unit) := by
    intro c hc both
    have apart : Disjoint unit b c :=
      (List.pairwise_middle Disjoint.symm |>.1 disjoint |> List.pairwise_cons.1).1 c hc
    simp only [Disjoint] at apart
    omega
  rw [List.perm_middle.countP_eq, List.countP_cons_of_pos (by simpa using inside),
    List.countP_eq_zero.2 (by simpa using others)]

end FreeBlock

end NextFit
