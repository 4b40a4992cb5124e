import NextFit.Proofs.Client

/-! # What can be seen of a heap

All that a heap shows of a request is the answer, and behind it the list of the free blocks and the
counts. While its client is well-behaved, the list and the counts can always be had. They follow from
the layout of the heap.
-/

namespace NextFit

/-- A sum that is a size is computed. -/
theorem Size.sum_of_lt {sizes : List Nat} (few : sizes.sum < bound) : sum sizes = .ok sizes.sum := by
  have added : ∀ (sizes : List Nat) (start : Nat), start + sizes.sum < bound →
      sizes.foldlM add start = (.ok (start + sizes.sum) : Except Fault Nat) := by
    intro sizes
    induction sizes with
    | nil => exact fun _ _ => rfl
    | cons size rest ih =>
        intro start few
        rw [List.sum_cons] at few ⊢
        have first : add start size = .ok (start + size) := add_of_lt (by omega)
        rw [List.foldlM_cons, first, ← Nat.add_assoc]
        exact ih (start + size) (by omega)
  rw [sum, added sizes 0 (by omega), Nat.zero_add]

theorem FreeBlock.units_eq_sum (blocks : List FreeBlock) :
    units blocks = (blocks.map (·.size)).sum := by
  induction blocks with
  | nil => rfl
  | cons b rest ih => rw [units, ih, List.map_cons, List.sum_cons]

namespace Client

variable {A : Type} [Arena A] {Keeps : A → Ledger → Prop} {client : Client A} {ledger : Ledger}
  {free : List FreeBlock}

/-- What a client is told. Only an allocation yields something. -/
def answer (client : Client A) : Request → Except Failure (Option Nat)
  | .allocate size => (Heap.allocate size client.heap).result.map some
  | .deallocate address => (Heap.deallocate address client.heap).result.map fun _ => none
  | .fill address value count =>
      (Heap.fill address value count client.heap).result.map fun _ => none

/-- What a request shows. -/
structure Observation where
  answer : Except Failure (Option Nat)
  /-- The free blocks behind the request. -/
  freeBlocks : Except Fault (List FreeBlock)
  stats : Except Fault HeapStats

def observe (client : Client A) (request : Request) : Observation where
  answer := client.answer request
  freeBlocks := (client.step request).heap.freeBlocks
  stats := (client.step request).heap.stats

/-- What requests show that are made one after the other. -/
def observations (client : Client A) : List Request → List Observation
  | [] => []
  | request :: rest => client.observe request :: (client.step request).observations rest

namespace Sound

theorem units_eq (h : client.Sound Keeps ledger free) :
    FreeBlock.units free + (client.live.map (Allocation.units (Arena.unit A))).sum =
      client.heap.arenaUnits := by
  have total := h.accounts.tile.units_eq
  rw [h.accounts.arenaUnits, Ledger.units, ← total]
  rw [FreeBlock.units_append, FreeBlock.units_eq_sum (client.blocks), blocks, List.map_map]
  rfl

theorem stats_eq (laws : Arena.Laws Keeps) (h : client.Sound Keeps ledger free) :
    client.heap.stats = .ok {
      arenaUnits := client.heap.arenaUnits
      freeUnits := FreeBlock.units free
      freeBlocks := free.length
      extensions := client.heap.extensions } := by
  have few := h.accounts.holds.wellFormed.units_lt laws.unit_pos
  have total := h.units_eq
  rw [← h.accounts.arenaUnits] at few
  have sum : Size.sum (free.map (·.size)) = .ok (FreeBlock.units free) :=
    FreeBlock.units_eq_sum free ▸
      Size.sum_of_lt (by rw [FreeBlock.units_eq_sum] at total; omega)
  simp only [Heap.stats, h.freeBlocks_eq laws, sum, bind, Except.bind]
  rfl

end Sound

end Client

end NextFit
