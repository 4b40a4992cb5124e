import NextFit.Relocation
import NextFit.Proofs.FreeBlock.Cut
import NextFit.Proofs.Pool.Take

/-! # Free blocks that move

The memory of a heap may lie anywhere above the sentinel. If it lay elsewhere, its addresses would move
by one distance and the sentinel would stay where it is. A free list never looks at this distance:
the sentinel is below all blocks and touches none of them wherever they are.
-/

namespace NextFit

/-- Memory that starts at `base` comes to start at `target`. -/
structure Relocation where
  base : Nat
  target : Nat
  base_pos : 0 < base
  target_pos : 0 < target

namespace Relocation

variable {move : Relocation} {address other : Nat}

/-- Where an address comes to lie. Nothing below the memory moves. -/
def apply (move : Relocation) (address : Nat) : Nat :=
  if address < move.base then address else address - move.base + move.target

/-- The sentinel or an address of the memory. -/
def Covers (move : Relocation) (address : Nat) : Prop :=
  address = sentinelAddress ∨ move.base ≤ address

theorem apply_of_le (inside : move.base ≤ address) :
    move.apply address + move.base = address + move.target := by
  rw [apply, if_neg (Nat.not_lt.2 inside)]
  omega

@[simp] theorem apply_sentinel : move.apply sentinelAddress = sentinelAddress :=
  if_pos move.base_pos

theorem apply_add (inside : move.base ≤ address) (distance : Nat) :
    move.apply (address + distance) = move.apply address + distance := by
  have moved := apply_of_le inside
  have moved' := apply_of_le (Nat.le_add_right_of_le (k := distance) inside)
  omega

/-- Addresses keep their order, also in relation to the sentinel. -/
theorem apply_lt_iff (covers : move.Covers address) (covers' : move.Covers other) :
    move.apply address < move.apply other ↔ address < other := by
  have low := move.base_pos
  have high := move.target_pos
  rcases covers with rfl | inside <;> rcases covers' with rfl | inside'
  · rw [apply_sentinel]
  · have moved := apply_of_le inside'
    rw [apply_sentinel, sentinelAddress]
    omega
  · have moved := apply_of_le inside
    rw [apply_sentinel, sentinelAddress]
    omega
  · have moved := apply_of_le inside
    have moved' := apply_of_le inside'
    omega

theorem apply_eq_iff (covers : move.Covers address) (covers' : move.Covers other) :
    move.apply address = move.apply other ↔ address = other := by
  have order := apply_lt_iff covers covers'
  have order' := apply_lt_iff covers' covers
  omega

theorem apply_le_iff (covers : move.Covers address) (covers' : move.Covers other) :
    move.apply address ≤ move.apply other ↔ address ≤ other := by
  rw [← Nat.not_lt, ← Nat.not_lt, apply_lt_iff covers' covers]

/-- Memory that stays where it is. -/
theorem apply_self (same : move.target = move.base) : move.apply = id := by
  funext address
  rw [apply, same]
  split
  · rfl
  · exact Nat.sub_add_cancel (Nat.not_lt.1 ‹_›)

end Relocation

namespace FreeBlock

variable {move : Relocation} {unit units cursor address : Nat} {block b : FreeBlock}
  {blocks : List FreeBlock}

/-- The blocks behind a move. -/
def relocate (move : Relocation) (blocks : List FreeBlock) : List FreeBlock :=
  blocks.map (mapAddresses move.apply)

@[simp] theorem relocate_nil : relocate move [] = [] :=
  rfl

@[simp] theorem relocate_cons : relocate move (block :: blocks) =
    block.mapAddresses move.apply :: relocate move blocks :=
  rfl

theorem stop_mapAddresses (inside : move.base ≤ block.address) :
    (block.mapAddresses move.apply).stop unit = move.apply (block.stop unit) :=
  (Relocation.apply_add inside _).symm

theorem pushFront_relocate (inside : ∀ b ∈ block :: blocks, move.base ≤ b.address) :
    pushFront unit (block.mapAddresses move.apply) (relocate move blocks) =
      relocate move (pushFront unit block blocks) := by
  cases blocks with
  | nil => rfl
  | cons first rest =>
      have low := inside block List.mem_cons_self
      have high := inside first (List.mem_cons_of_mem _ List.mem_cons_self)
      have touch : (block.mapAddresses move.apply).stop unit = (first.mapAddresses move.apply).address ↔
          block.stop unit = first.address := by
        rw [stop_mapAddresses low]
        exact Relocation.apply_eq_iff (.inr (Nat.le_add_right_of_le low)) (.inr high)
      simp only [relocate_cons, pushFront, touch]
      split <;> rfl

theorem base_le_release {base : Nat} (inside : ∀ b ∈ block :: blocks, base ≤ b.address) :
    ∀ b ∈ release unit block blocks, base ≤ b.address := by
  intro b mem
  rcases exists_address_of_mem_release mem with same | ⟨old, mem, same⟩
  · rw [same]
    exact inside block List.mem_cons_self
  · rw [← same]
    exact inside old (List.mem_cons_of_mem _ mem)

theorem release_relocate (unit : Nat) (inside : ∀ b ∈ block :: blocks, move.base ≤ b.address) :
    release unit (block.mapAddresses move.apply) (relocate move blocks) =
      relocate move (release unit block blocks) := by
  induction blocks with
  | nil => rfl
  | cons first rest ih =>
      have low := inside block List.mem_cons_self
      have high := inside first (List.mem_cons_of_mem _ List.mem_cons_self)
      have others : ∀ b ∈ block :: rest, move.base ≤ b.address :=
        fun b mem => inside b (List.cons_subset_cons _ (List.subset_cons_self _ _) mem)
      have order : (block.mapAddresses move.apply).address < (first.mapAddresses move.apply).address ↔
          block.address < first.address := Relocation.apply_lt_iff (.inr low) (.inr high)
      simp only [relocate_cons, release, order]
      split
      · exact pushFront_relocate inside
      · rw [ih others]
        exact pushFront_relocate (List.forall_mem_cons.2 ⟨high, base_le_release others⟩)

/-- A test that comes out the same for each block selects the same blocks. -/
theorem filter_relocate (test test' : FreeBlock → Bool)
    (same : ∀ b ∈ blocks, test' (b.mapAddresses move.apply) = test b) :
    (relocate move blocks).filter test' = relocate move (blocks.filter test) := by
  rw [relocate, List.filter_map, relocate]
  congr 1
  exact List.filter_congr same

theorem find?_relocate {test test' : FreeBlock → Bool}
    (same : ∀ b, test' (b.mapAddresses move.apply) = test b) :
    (relocate move blocks).find? test' = (blocks.find? test).map (mapAddresses move.apply) := by
  rw [relocate, List.find?_map]
  congr 2
  exact funext same

variable (inside : ∀ b ∈ blocks, move.base ≤ b.address)

include inside

theorem lap_relocate (covers : move.Covers cursor) :
    lap (move.apply cursor) (relocate move blocks) = relocate move (lap cursor blocks) := by
  have behind := filter_relocate (cursor < ·.address) (move.apply cursor < ·.address)
    fun b mem => decide_eq_decide.2 (Relocation.apply_lt_iff covers (.inr (inside b mem)))
  have front := filter_relocate (·.address ≤ cursor) (·.address ≤ move.apply cursor)
    fun b mem => decide_eq_decide.2 (Relocation.apply_le_iff (.inr (inside b mem)) covers)
  rw [lap, behind, front]
  exact List.map_append.symm

theorem nextFit?_relocate (covers : move.Covers cursor) :
    nextFit? units (move.apply cursor) (relocate move blocks) =
      (nextFit? units cursor blocks).map (mapAddresses move.apply) := by
  rw [nextFit?, lap_relocate inside covers]
  exact find?_relocate fun _ => rfl

theorem carve_relocate (units : Nat) (covers : move.Covers address) :
    carve units (move.apply address) (relocate move blocks) =
      relocate move (carve units address blocks) := by
  rw [carve, relocate, List.filterMap_map, carve, relocate, List.map_filterMap]
  apply List.filterMap_congr
  intro b mem
  have place : (b.mapAddresses move.apply).address ≠ move.apply address ↔ b.address ≠ address :=
    not_congr (Relocation.apply_eq_iff (.inr (inside b mem)) covers)
  simp only [Function.comp_apply, place]
  by_cases other : b.address ≠ address
  · simp only [if_pos other, Option.map_some]
  · simp only [if_neg other]
    by_cases whole : b.size ≤ units <;> simp [mapAddresses, whole]

theorem below_relocate (covers : move.Covers address) :
    below (relocate move blocks) (move.apply address) = move.apply (below blocks address) := by
  have lower := filter_relocate (·.address < address) (·.address < move.apply address)
    fun b mem => decide_eq_decide.2 (Relocation.apply_lt_iff (.inr (inside b mem)) covers)
  have last : ∀ (before : Nat) (low : List FreeBlock),
      lastFrom (move.apply before) (relocate move low) = move.apply (lastFrom before low) := by
    intro before low
    induction low generalizing before with
    | nil => rfl
    | cons b rest ih => exact ih b.address
  rw [below, lower, below, ← last, Relocation.apply_sentinel]

theorem covers_below : move.Covers (below blocks address) := by
  rcases lastFrom_mem sentinelAddress (blocks.filter (·.address < address)) with none | ⟨p, mem, last⟩
  · exact .inl none
  · refine .inr ?_
    rw [below, ← last]
    exact inside p (List.mem_of_mem_filter mem)

end FreeBlock

end NextFit
