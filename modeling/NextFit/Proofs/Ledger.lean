import Mathlib.Data.List.Perm.Subperm
import NextFit.Arena
import NextFit.Proofs.Outcome
import NextFit.Proofs.FreeBlock.Cells
import NextFit.Proofs.FreeBlock.Cut

/-! # Lawful arenas

A heap relies on two things in its arena: the regions that it was granted, and the headers that it
stored there and that nothing has overwritten since. A `Ledger` writes both down. An arena is
`Lawful` if its states keep some ledger that every operation updates as it should. Nothing is
promised about the order of the regions or about the gaps between them, about memory outside of
them, or about the reason for which an extension fails.
-/

namespace NextFit

structure Ledger where
  /-- In the order in which they were granted. -/
  regions : List Region := []
  header? : Nat → Option Header := fun _ => none

namespace Ledger

def grant (ledger : Ledger) (base bytes : Nat) : Ledger :=
  { ledger with regions := ledger.regions ++ [{ start := base, stop := base + bytes }] }

/-- Forget the headers that lose a byte. -/
def overwrite (unit : Nat) (ledger : Ledger) (address count : Nat) : Ledger :=
  { ledger with
    header? := fun query =>
      if query + unit ≤ address ∨ address + count ≤ query then ledger.header? query else none }

/-- A stored header stands, and those it shares a byte with are gone. -/
def write (unit : Nat) (ledger : Ledger) (address : Nat) (header : Header) : Ledger :=
  { ledger with
    header? := fun query =>
      if query = address then some header
      else (ledger.overwrite unit address unit).header? query }

/-- The addresses of all whole units of the regions. -/
def cells (unit : Nat) (ledger : Ledger) : List Nat :=
  FreeBlock.allCells unit (ledger.regions.map (Region.block unit))

/-- How many whole units the regions have. -/
def units (unit : Nat) (ledger : Ledger) : Nat :=
  FreeBlock.units (ledger.regions.map (Region.block unit))

end Ledger

/-- What an arena promises to a heap, where `Keeps arena ledger` says that the arena is as the
    ledger says. -/
structure Arena.Laws {A : Type} [Arena A] (Keeps : A → Ledger → Prop) : Prop where
  unit_pos : 0 < Arena.unit A
  /-- New memory is no part of the old, does not start at the sentinel, and ends within the address
      space. -/
  granted : ∀ {arena arena' : A} {ledger : Ledger} {bytes base : Nat}, Keeps arena ledger →
    (Arena.extend bytes).Yields arena (.ok base) arena' →
    1 ≤ base ∧ base + bytes ≤ Size.greatest ∧
      (∀ region ∈ ledger.regions, region.Disjoint { start := base, stop := base + bytes }) ∧
      Keeps arena' (ledger.grant base bytes)
  refused : ∀ {arena arena' : A} {ledger : Ledger} {bytes : Nat} {failure : Failure},
    Keeps arena ledger → (Arena.extend bytes).Yields arena (.error failure) arena' →
    Keeps arena' ledger
  contains : ∀ {arena : A} {ledger : Ledger} {region : Region} {address length : Nat},
    Keeps arena ledger → region ∈ ledger.regions → region.contains address length = true →
    Arena.contains arena address length = true
  load : ∀ {arena : A} {ledger : Ledger} {address : Nat} {header : Header},
    Keeps arena ledger → ledger.header? address = some header →
    Arena.load arena address = .ok header
  /-- A header may be stored inside a region if it leads to a region or to the sentinel and does not
      claim more units than there are. -/
  store : ∀ {arena : A} {ledger : Ledger} {region : Region} {address : Nat} {header : Header},
    Keeps arena ledger → region ∈ ledger.regions →
    region.contains address (Arena.unit A) = true →
    (header.next = sentinelAddress ∨ ∃ target ∈ ledger.regions, header.next ∈ target) →
    header.size ≤ ledger.units (Arena.unit A) →
    ∃ arena', (Arena.store address header).Yields arena (.ok ()) arena' ∧
      Keeps arena' (ledger.write (Arena.unit A) address header)
  fill : ∀ {arena : A} {ledger : Ledger} {address count : Nat} {value : UInt8},
    Keeps arena ledger → Arena.contains arena address count = true →
    Keeps (Arena.fill address value count arena).state
      (ledger.overwrite (Arena.unit A) address count)

/-- How the arena would answer to a request for so many bytes. -/
def Arena.reply {A : Type} [Arena A] (arena : A) (bytes : Nat) : Except Failure Nat :=
  (Arena.extend bytes arena).result

/-- An arena that keeps its promises from now on, whatever it granted before. -/
def Arena.Lawful {A : Type} [Arena A] (arena : A) : Prop :=
  ∃ Keeps : A → Ledger → Prop, Arena.Laws Keeps ∧ Keeps arena {}

namespace Ledger

variable {unit x : Nat} {ledger : Ledger} {region : Region}

/-- The second ledger has all that the first one has. -/
structure Recalls (ledger ledger' : Ledger) : Prop where
  regions : ledger'.regions = ledger.regions
  header? : ∀ address header, ledger.header? address = some header →
    ledger'.header? address = some header

theorem Recalls.refl (ledger : Ledger) : ledger.Recalls ledger :=
  ⟨rfl, fun _ _ known => known⟩

/-- The regions of a heap that only asks for whole units. -/
structure WellFormed (unit : Nat) (ledger : Ledger) : Prop where
  start_pos : ∀ region ∈ ledger.regions, 0 < region.start
  stop_le : ∀ region ∈ ledger.regions, region.stop ≤ Size.greatest
  whole : ∀ region ∈ ledger.regions, ∃ n, 0 < n ∧ region.stop = region.start + n * unit
  disjoint : ledger.regions.Pairwise Region.Disjoint

@[simp] theorem header?_write_self (ledger : Ledger) (address : Nat) (header : Header) :
    (ledger.write unit address header).header? address = some header :=
  if_pos rfl

theorem header?_overwrite_eq_some {address count : Nat} {header : Header} :
    (ledger.overwrite unit address count).header? x = some header ↔
      (x + unit ≤ address ∨ address + count ≤ x) ∧ ledger.header? x = some header := by
  simp only [overwrite, Option.ite_none_right_eq_some]

theorem header?_overwrite_of_apart {address count : Nat}
    (apart : x + unit ≤ address ∨ address + count ≤ x) :
    (ledger.overwrite unit address count).header? x = ledger.header? x :=
  if_pos apart

theorem header?_write_of_apart (positive : 0 < unit) {address : Nat} {header : Header}
    (apart : FreeBlock.Apart unit x address) :
    (ledger.write unit address header).header? x = ledger.header? x := by
  have ne : x ≠ address := by
    rintro rfl
    simp only [FreeBlock.Apart] at apart
    omega
  exact (if_neg ne).trans (header?_overwrite_of_apart apart)

theorem length_cells (unit : Nat) (ledger : Ledger) :
    (ledger.cells unit).length = ledger.units unit :=
  FreeBlock.length_allCells unit _

/-- Blocks that share no byte have no more units than the regions they lie in. -/
theorem units_le_of_owned (positive : 0 < unit) {blocks : List FreeBlock}
    (nonempty : ∀ b ∈ blocks, 0 < b.size)
    (disjoint : blocks.Pairwise (FreeBlock.Disjoint unit))
    (owned : FreeBlock.allCells unit blocks ⊆ ledger.cells unit) :
    FreeBlock.units blocks ≤ ledger.units unit := by
  have apart := (FreeBlock.pairwise_disjoint_iff positive nonempty).1 disjoint
  have distinct := FreeBlock.nodup_of_apart positive apart
  have count := (List.subperm_of_subset distinct owned).length_le
  rwa [FreeBlock.length_allCells, length_cells] at count

theorem unit_mem_cells (positive : 0 < unit) {n k : Nat} (mem : region ∈ ledger.regions)
    (ends : region.stop = region.start + n * unit) (less : k < n) :
    region.start + k * unit ∈ ledger.cells unit := by
  have size : (region.block unit).size = n := by
    rw [Region.block, ends, Nat.add_sub_cancel_left, Nat.mul_div_cancel _ positive]
  refine FreeBlock.mem_allCells.2 ⟨region.block unit, List.mem_map_of_mem mem, ?_⟩
  exact FreeBlock.mem_cells.2 ⟨k, by omega, rfl⟩

namespace WellFormed

theorem empty (unit : Nat) : WellFormed unit {} where
  start_pos := by simp
  stop_le := by simp
  whole := by simp
  disjoint := .nil

theorem congr {ledger' : Ledger} (h : ledger.WellFormed unit)
    (same : ledger'.regions = ledger.regions) : ledger'.WellFormed unit where
  start_pos := same ▸ h.start_pos
  stop_le := same ▸ h.stop_le
  whole := same ▸ h.whole
  disjoint := same ▸ h.disjoint

variable (h : ledger.WellFormed unit) (positive : 0 < unit)

include h positive

theorem span_block (mem : region ∈ ledger.regions) : (region.block unit).span unit = region := by
  obtain ⟨n, -, ends⟩ := h.whole region mem
  have size : (region.stop - region.start) / unit = n := by
    rw [ends, Nat.add_sub_cancel_left, Nat.mul_div_cancel _ positive]
  simp only [Region.block, FreeBlock.span, FreeBlock.stop, size, ← ends]

theorem block_nonempty : ∀ b ∈ ledger.regions.map (Region.block unit), 0 < b.size := by
  intro b mem
  obtain ⟨region, granted, rfl⟩ := List.mem_map.1 mem
  obtain ⟨n, nonempty, ends⟩ := h.whole region granted
  simpa only [Region.block, ends, Nat.add_sub_cancel_left, Nat.mul_div_cancel _ positive]

theorem occupied_iff :
    FreeBlock.Occupied unit (ledger.regions.map (Region.block unit)) x ↔
      ∃ region ∈ ledger.regions, x ∈ region := by
  simp only [FreeBlock.Occupied, List.mem_map, exists_exists_and_eq_and]
  constructor
  · rintro ⟨region, mem, inside⟩
    exact ⟨region, mem, h.span_block positive mem ▸ inside⟩
  · rintro ⟨region, mem, inside⟩
    exact ⟨region, mem, (h.span_block positive mem).symm ▸ inside⟩

theorem start_lt_stop (mem : region ∈ ledger.regions) : region.start < region.stop := by
  obtain ⟨n, nonempty, ends⟩ := h.whole region mem
  have bytes := Nat.mul_pos nonempty positive
  omega

/-- A unit lies inside one region, on the grid of units that starts where the region does. -/
theorem exists_region (mem : x ∈ ledger.cells unit) :
    ∃ region ∈ ledger.regions, region.contains x unit = true ∧ ∃ k, x = region.start + k * unit := by
  obtain ⟨b, hb, cell⟩ := FreeBlock.mem_allCells.1 mem
  obtain ⟨region, hregion, rfl⟩ := List.mem_map.1 hb
  have bounds := FreeBlock.cell_bounds cell
  have ends : (region.block unit).stop unit = region.stop :=
    congrArg Region.stop (h.span_block positive hregion)
  obtain ⟨k, -, address⟩ := FreeBlock.mem_cells.1 cell
  exact ⟨region, hregion, Region.contains_eq_true_iff.2 ⟨bounds.1, ends ▸ bounds.2⟩, k, address⟩

theorem cell_pos (mem : x ∈ ledger.cells unit) : 0 < x := by
  obtain ⟨region, mem, inside, -⟩ := h.exists_region positive mem
  exact Nat.lt_of_lt_of_le (h.start_pos region mem) (Region.contains_eq_true_iff.1 inside).1

theorem cell_le (mem : x ∈ ledger.cells unit) : x + unit ≤ Size.greatest := by
  obtain ⟨region, mem, inside, -⟩ := h.exists_region positive mem
  exact Nat.le_trans (Region.contains_eq_true_iff.1 inside).2 (h.stop_le region mem)

theorem pairwise_disjoint_block :
    (ledger.regions.map (Region.block unit)).Pairwise (FreeBlock.Disjoint unit) := by
  rw [List.pairwise_map]
  apply h.disjoint.imp_of_mem
  intro r s hr hs disjoint
  have spanR := h.span_block positive hr
  have spanS := h.span_block positive hs
  have nonemptyR := h.start_lt_stop positive hr
  have nonemptyS := h.start_lt_stop positive hs
  have atR := disjoint r.start
  have atS := disjoint s.start
  have endsR : (r.block unit).stop unit = r.stop := congrArg Region.stop spanR
  have endsS : (s.block unit).stop unit = s.stop := congrArg Region.stop spanS
  simp only [Region.mem_def] at atR atS
  rw [FreeBlock.Disjoint, endsR, endsS]
  show r.stop ≤ s.start ∨ s.stop ≤ r.start
  omega

theorem pairwise_apart_cells : (ledger.cells unit).Pairwise (FreeBlock.Apart unit) :=
  (FreeBlock.pairwise_disjoint_iff positive (h.block_nonempty positive)).1
    (h.pairwise_disjoint_block positive)

/-- Distinct units take up distinct addresses, so there are fewer of them than addresses. -/
theorem units_lt : ledger.units unit < Size.bound := by
  have inside : ledger.cells unit ⊆ List.range Size.greatest := by
    intro x mem
    have last := h.cell_le positive mem
    exact List.mem_range.2 (by omega)
  have distinct := FreeBlock.nodup_of_apart positive (h.pairwise_apart_cells positive)
  have count := (List.subperm_of_subset distinct inside).length_le
  rw [length_cells, List.length_range] at count
  exact Nat.lt_of_le_of_lt count (by decide)

/-- A block of units of the regions lies between bounds that all regions lie between. -/
theorem block_within {b : FreeBlock} {low high : Nat} (nonempty : 0 < b.size)
    (owned : b.cells unit ⊆ ledger.cells unit)
    (within : ∀ region ∈ ledger.regions, low ≤ region.start ∧ region.stop ≤ high) :
    low ≤ b.address ∧ b.stop unit ≤ high := by
  have bounds : ∀ x ∈ b.cells unit, low ≤ x ∧ x + unit ≤ high := by
    intro x cell
    obtain ⟨region, mem, inside, -⟩ := h.exists_region positive (owned cell)
    obtain ⟨first, last⟩ := Region.contains_eq_true_iff.1 inside
    obtain ⟨above, below⟩ := within region mem
    omega
  have last := (bounds _ (FreeBlock.mem_cells.2 ⟨b.size - 1, by omega, rfl⟩)).2
  refine ⟨(bounds _ (FreeBlock.address_mem_cells nonempty)).1, ?_⟩
  obtain ⟨before, size⟩ : ∃ before, b.size = before + 1 := ⟨b.size - 1, by omega⟩
  rw [size, Nat.add_sub_cancel] at last
  rw [FreeBlock.stop, size, Nat.add_mul, Nat.one_mul]
  omega

theorem block_stop_le {b : FreeBlock} (nonempty : 0 < b.size)
    (owned : b.cells unit ⊆ ledger.cells unit) : b.stop unit ≤ Size.greatest :=
  (h.block_within positive nonempty owned fun region mem => ⟨Nat.zero_le _, h.stop_le region mem⟩).2

end WellFormed

end Ledger

/-- The arena can be filled wherever a heap has memory, also across two regions that touch. -/
def Arena.Fillable {A : Type} [Arena A] (Keeps : A → Ledger → Prop) : Prop :=
  ∀ {arena : A} {ledger : Ledger} {b : FreeBlock} {address count : Nat} (value : UInt8),
    Keeps arena ledger → ledger.WellFormed (Arena.unit A) → 0 < b.size →
    b.cells (Arena.unit A) ⊆ ledger.cells (Arena.unit A) →
    b.address ≤ address → address + count ≤ b.stop (Arena.unit A) →
    Arena.contains arena address count = true ∧
      (Arena.fill address value count arena).result = .ok ()

end NextFit
