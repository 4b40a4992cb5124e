import NextFit.Proofs.Ledger
import NextFit.Proofs.Pool.Walk

/-! # Strung pools

A pool is strung on a list of blocks if its headers link the sentinel and these blocks, in address
order, to a ring. This asks little of the arena: that a header may be stored at the spots where the
blocks stand (`Arena.Slate`), not who granted the memory between them, and the blocks may touch. Here
the sentinel counts as one more block, without units, so that a link to the first block is changed
like any other.
-/

namespace NextFit

/-- A header that is stored at a spot stands there until one of its bytes is overwritten. It must lead
    to a spot or to the sentinel, and its size must not be too large. -/
structure Arena.Slate {A : Type} [Arena A] (Keeps : A → Ledger → Prop) (Spot : Nat → Prop)
    (most : Nat) : Prop where
  unit_pos : 0 < Arena.unit A
  load : ∀ {arena : A} {ledger : Ledger} {address : Nat} {header : Header},
    Keeps arena ledger → ledger.header? address = some header →
    Arena.load arena address = .ok header
  store : ∀ {arena : A} {ledger : Ledger} {address : Nat} {header : Header},
    Keeps arena ledger → Spot address → (header.next = sentinelAddress ∨ Spot header.next) →
    header.size ≤ most →
    ∃ arena', (Arena.store address header).Yields arena (.ok ()) arena' ∧
      Keeps arena' (ledger.write (Arena.unit A) address header)

namespace FreeBlock

variable {unit : Nat} {p q : FreeBlock} {blocks init high high' : List FreeBlock}
  {header? header?' : Nat → Option Header}

def sentinel : FreeBlock := { address := sentinelAddress, size := 0 }

/-- Address order without overlap. Neighbours may touch. -/
def Ordered (unit : Nat) (blocks : List FreeBlock) : Prop :=
  blocks.Pairwise fun b c => b.stop unit ≤ c.address

/-- The header of the block has a spot and can tell its size, and its bytes have addresses. -/
structure Placed (unit : Nat) (Spot : Nat → Prop) (most : Nat) (b : FreeBlock) : Prop where
  nonempty : 0 < b.size
  nonzero : b.address ≠ sentinelAddress
  spot : Spot b.address
  stop_le : b.stop unit ≤ Size.greatest
  size_le : b.size ≤ most

instance (unit : Nat) (blocks : List FreeBlock) : Decidable (Ordered unit blocks) :=
  inferInstanceAs (Decidable (List.Pairwise _ _))

instance (unit : Nat) (Spot : Nat → Prop) [DecidablePred Spot] (most : Nat) (b : FreeBlock) :
    Decidable (b.Placed unit Spot most) :=
  decidable_of_iff (0 < b.size ∧ b.address ≠ sentinelAddress ∧ Spot b.address ∧
      b.stop unit ≤ Size.greatest ∧ b.size ≤ most)
    ⟨fun ⟨nonempty, nonzero, spot, stop_le, size_le⟩ =>
        { nonempty, nonzero, spot, stop_le, size_le },
      fun h => ⟨h.nonempty, h.nonzero, h.spot, h.stop_le, h.size_le⟩⟩

theorem Separated.ordered (h : Separated unit blocks) : Ordered unit blocks :=
  h.imp Nat.le_of_lt

theorem Ordered.pairwise_disjoint (h : Ordered unit blocks) : blocks.Pairwise (Disjoint unit) :=
  h.imp .inl

theorem Ordered.ascending (positive : 0 < unit) (h : Ordered unit blocks)
    (nonempty : ∀ b ∈ blocks, 0 < b.size) : Ascending blocks := by
  apply h.imp_of_mem
  intro b c mem _ order
  have bytes := Nat.mul_pos (nonempty b mem) positive
  simp only [stop] at order
  omega

/-- Blocks without overlap have no more units than there is room for behind the first. -/
theorem Ordered.units_le {low high : Nat} (h : Ordered unit blocks) (order : low ≤ high)
    (starts : ∀ b ∈ blocks, low ≤ b.address) (ends : ∀ b ∈ blocks, b.stop unit ≤ high) :
    low + units blocks * unit ≤ high := by
  induction blocks generalizing low with
  | nil => simpa [units] using order
  | cons b rest ih =>
      obtain ⟨first, tail⟩ := List.pairwise_cons.1 h
      have start := starts b List.mem_cons_self
      have later := ih tail (ends b List.mem_cons_self) first
        fun c mem => ends c (List.mem_cons_of_mem _ mem)
      simp only [stop, units, Nat.add_mul] at later ⊢
      omega

/-- Each header tells the size of its block and leads to the next one. -/
def Linked (header? : Nat → Option Header) : List FreeBlock → Prop
  | [] => True
  | b :: rest =>
      header? b.address = some { size := b.size, next := firstAddress rest } ∧ Linked header? rest

theorem Linked.behind (h : Linked header? (init ++ high)) : Linked header? high := by
  induction init with
  | nil => exact h
  | cons b rest ih => exact ih h.2

theorem Linked.header (h : Linked header? (init ++ p :: high)) :
    header? p.address = some { size := p.size, next := firstAddress high } :=
  h.behind.1

theorem Linked.congr (h : Linked header? blocks)
    (same : ∀ b ∈ blocks, header?' b.address = header? b.address) : Linked header?' blocks := by
  induction blocks with
  | nil => trivial
  | cons b rest ih =>
      refine ⟨(same b List.mem_cons_self).trans h.1, ih h.2 ?_⟩
      intro c mem
      exact same c (List.mem_cons_of_mem _ mem)

theorem Linked.mono (h : Linked header? blocks)
    (known : ∀ x header, header? x = some header → header?' x = some header) :
    Linked header?' blocks := by
  induction blocks with
  | nil => trivial
  | cons b rest ih => exact ⟨known _ _ h.1, ih h.2⟩

/-- What comes behind a node may change with the node if its address stays. -/
theorem Linked.relink (h : Linked header? (init ++ p :: high))
    (same : ∀ b ∈ init, header?' b.address = header? b.address) (address : q.address = p.address)
    (tail : Linked header?' (q :: high')) : Linked header?' (init ++ q :: high') := by
  induction init with
  | nil => exact tail
  | cons b rest ih =>
      have first : firstAddress (rest ++ q :: high') = firstAddress (rest ++ p :: high) := by
        cases rest with
        | nil => exact address
        | cons c rest => rfl
      rw [List.cons_append] at h ⊢
      refine ⟨?_, ih h.2 fun c mem => same c (List.mem_cons_of_mem _ mem)⟩
      rw [same b List.mem_cons_self, first]
      exact h.1

/-- A header at the one address leaves the header at the other as it is. -/
def Beside (unit x y : Nat) : Prop :=
  x ≠ y ∧ (x = sentinelAddress ∨ y = sentinelAddress ∨ Apart unit x y)

theorem Beside.symm {x y : Nat} (h : Beside unit x y) : Beside unit y x := by
  refine ⟨h.1.symm, ?_⟩
  rcases h.2 with left | right | apart
  · exact .inr (.inl left)
  · exact .inl right
  · exact .inr (.inr apart.symm)

theorem Apart.beside (positive : 0 < unit) {x y : Nat} (h : Apart unit x y) : Beside unit x y := by
  refine ⟨?_, .inr (.inr h)⟩
  rintro rfl
  simp only [Apart] at h
  omega

/-- The sentinel is in nobody's way. -/
theorem beside_nodes (positive : 0 < unit) {x : Nat} (nonzero : x ≠ sentinelAddress)
    (apart : ∀ c ∈ blocks, Apart unit c.address x) :
    ∀ c ∈ sentinel :: blocks, Beside unit c.address x := by
  intro c mem
  rcases List.mem_cons.1 mem with rfl | mem
  · exact ⟨nonzero.symm, .inl rfl⟩
  · exact (apart c mem).beside positive

end FreeBlock

namespace Ledger

variable {unit : Nat} {ledger ledger' ledger'' : Ledger} {cells cells' : List Nat}

/-- Nothing but headers in these units has changed. -/
structure Frame (unit : Nat) (cells : List Nat) (ledger ledger' : Ledger) : Prop where
  regions : ledger'.regions = ledger.regions
  header? : ∀ x, (∀ y ∈ cells, FreeBlock.Apart unit x y) → ledger'.header? x = ledger.header? x

namespace Frame

theorem refl (ledger : Ledger) : Frame unit cells ledger ledger :=
  ⟨rfl, fun _ _ => rfl⟩

theorem trans (first : Frame unit cells ledger ledger') (second : Frame unit cells ledger' ledger'') :
    Frame unit cells ledger ledger'' := by
  refine ⟨second.regions.trans first.regions, ?_⟩
  intro x apart
  rw [second.header? x apart, first.header? x apart]

theorem mono (h : Frame unit cells ledger ledger') (wider : cells ⊆ cells') :
    Frame unit cells' ledger ledger' :=
  ⟨h.regions, fun x apart => h.header? x fun y mem => apart y (wider mem)⟩

theorem cells_eq (h : Frame unit cells ledger ledger') : ledger'.cells unit = ledger.cells unit := by
  rw [Ledger.cells, h.regions, Ledger.cells]

theorem units_eq (h : Frame unit cells ledger ledger') : ledger'.units unit = ledger.units unit := by
  rw [Ledger.units, h.regions, Ledger.units]

theorem wellFormed (h : Frame unit cells ledger ledger') (wellFormed : ledger.WellFormed unit) :
    ledger'.WellFormed unit :=
  wellFormed.congr h.regions

theorem write (positive : 0 < unit) (ledger : Ledger) {x : Nat} (header : Header) (mem : x ∈ cells) :
    Frame unit cells ledger (ledger.write unit x header) :=
  ⟨rfl, fun _ apart => header?_write_of_apart positive (apart x mem)⟩

end Frame

end Ledger

namespace Pool

open FreeBlock

variable {A : Type} [Arena A] {Keeps : A → Ledger → Prop} {Spot : Nat → Prop} {most : Nat}
  {pool pool' : Pool A} {ledger ledger' : Ledger} {blocks : List FreeBlock} {header : Header}
  {address : Nat}

/-- The header of a node: that of the sentinel stands in the pool, the others in the ledger. -/
def record? (pool : Pool A) (ledger : Ledger) (address : Nat) : Option Header :=
  if address = sentinelAddress then some pool.freeList.sentinel else ledger.header? address

/-- Where the next search starts, at the first use too. -/
def start (pool : Pool A) : Nat :=
  pool.freeList.cursor.getD sentinelAddress

def withCursor (pool : Pool A) (address : Nat) : Pool A :=
  { pool with freeList.cursor := some address }

/-- The headers link the sentinel and these blocks to a ring. -/
structure Strung (Keeps : A → Ledger → Prop) (Spot : Nat → Prop) (most : Nat) (pool : Pool A)
    (ledger : Ledger) (blocks : List FreeBlock) : Prop where
  keeps : Keeps pool.arena ledger
  linked : Linked (pool.record? ledger) (sentinel :: blocks)
  ordered : Ordered (Arena.unit A) blocks
  placed : ∀ b ∈ blocks, b.Placed (Arena.unit A) Spot most
  node : IsNode blocks pool.start
  unused : pool.freeList.cursor = none → blocks = []

/-- The pool is strung on the blocks that it lists, and the next search starts behind this node. -/
structure Lists (Keeps : A → Ledger → Prop) (Spot : Nat → Prop) (most : Nat) (pool : Pool A)
    (blocks : List FreeBlock) (cursor : Nat) : Prop where
  strung : ∃ ledger, pool.Strung Keeps Spot most ledger blocks
  blocks : pool.blocks = .ok blocks
  cursor : pool.freeList.cursor = some cursor

omit [Arena A] in
theorem record?_of_ne (apart : address ≠ sentinelAddress) :
    pool.record? ledger address = ledger.header? address :=
  if_neg apart

omit [Arena A] in
theorem yields_useCursor (pool : Pool A) :
    useCursor.Yields pool (.ok pool.start) (pool.withCursor pool.start) := by
  rcases pool with ⟨arena, sentinel, _ | address⟩
  · exact ⟨rfl, rfl⟩
  · exact ⟨rfl, rfl⟩

omit [Arena A] in
/-- A list that is in use already stays as it is. -/
theorem withCursor_start {cursor : Nat} (used : pool.freeList.cursor = some cursor) :
    pool.withCursor pool.start = pool := by
  rcases pool with ⟨arena, sentinel, _⟩
  cases used
  rfl

theorem search_withCursor (pool : Pool A) (cursor units start : Nat) :
    (pool.withCursor cursor).search units start = pool.search units start := by
  apply search_congr
  intro query
  rfl

theorem slot_withCursor (pool : Pool A) (cursor block start : Nat) :
    (pool.withCursor cursor).slot block start = pool.slot block start := by
  apply slot_congr
  intro query
  rfl

theorem header_of_record? (slate : Arena.Slate Keeps Spot most) (keeps : Keeps pool.arena ledger)
    (known : pool.record? ledger address = some header) : pool.header address = .ok header := by
  unfold record? at known
  split at known
  · cases known
    rename_i sentinel
    exact sentinel ▸ pool.header_sentinel
  · rename_i apart
    rw [header_of_ne apart]
    exact slate.load keeps known

/-! ## One header at a time -/

/-- What has happened when one header was set. -/
structure Wrote (Keeps : A → Ledger → Prop) (address : Nat) (header : Header) (pool : Pool A)
    (ledger : Ledger) (pool' : Pool A) (ledger' : Ledger) : Prop where
  keeps : Keeps pool'.arena ledger'
  cursor : pool'.freeList.cursor = pool.freeList.cursor
  record_self : pool'.record? ledger' address = some header
  record_beside : ∀ x, Beside (Arena.unit A) x address →
    pool'.record? ledger' x = pool.record? ledger x
  frame : ∀ cells, address = sentinelAddress ∨ address ∈ cells →
    Ledger.Frame (Arena.unit A) cells ledger ledger'

theorem yields_setHeader (slate : Arena.Slate Keeps Spot most) (keeps : Keeps pool.arena ledger)
    (header : Header) (place : address = sentinelAddress ∨ Spot address)
    (leads : header.next = sentinelAddress ∨ Spot header.next) (fits : header.size ≤ most) :
    ∃ pool' ledger', (setHeader address header).Yields pool (.ok ()) pool' ∧
      Wrote Keeps address header pool ledger pool' ledger' := by
  unfold setHeader
  split
  case isTrue sentinel =>
    subst sentinel
    refine ⟨_, ledger, .update _, keeps, rfl, rfl, ?_, fun _ _ => .refl _⟩
    intro x beside
    rw [record?_of_ne beside.1, record?_of_ne beside.1]
  case isFalse apart =>
    obtain ⟨arena', stored, kept⟩ := slate.store keeps (place.resolve_left apart) leads fits
    refine ⟨_, _, .on stored, kept, rfl, ?_, ?_,
      fun cells mem => .write slate.unit_pos _ _ (mem.resolve_left apart)⟩
    · rw [record?_of_ne apart]
      exact Ledger.header?_write_self _ _ _
    · intro x beside
      unfold record?
      split
      · rfl
      · rename_i other
        refine Ledger.header?_write_of_apart slate.unit_pos ?_
        exact (beside.2.resolve_left other).resolve_left apart

/-! ## The ring of a pool -/

theorem links_of_linked (slate : Arena.Slate Keeps Spot most) (keeps : Keeps pool.arena ledger)
    (linked : Linked (pool.record? ledger) blocks)
    (nonzero : ∀ b ∈ blocks, b.address ≠ sentinelAddress) :
    pool.Links (firstAddress blocks) blocks := by
  induction blocks with
  | nil => exact .stop
  | cons b rest ih =>
      have apart := nonzero b List.mem_cons_self
      have found := header_of_record? slate keeps linked.1
      rw [header_of_ne apart] at found
      exact .block apart found (ih linked.2 fun c mem => nonzero c (List.mem_cons_of_mem _ mem))

namespace Strung

theorem sentinel_eq (h : pool.Strung Keeps Spot most ledger blocks) :
    pool.freeList.sentinel = { size := 0, next := firstAddress blocks } :=
  Option.some.inj h.linked.1

/-- A ring may be searched from any of its nodes. -/
theorem withCursor (h : pool.Strung Keeps Spot most ledger blocks) (node : IsNode blocks address) :
    (pool.withCursor address).Strung Keeps Spot most ledger blocks where
  keeps := h.keeps
  linked := h.linked
  ordered := h.ordered
  placed := h.placed
  node := node
  unused := nofun

theorem nonempty (h : pool.Strung Keeps Spot most ledger blocks) : ∀ b ∈ blocks, 0 < b.size :=
  fun b mem => (h.placed b mem).nonempty

theorem nonzero (h : pool.Strung Keeps Spot most ledger blocks) :
    ∀ b ∈ blocks, b.address ≠ sentinelAddress :=
  fun b mem => (h.placed b mem).nonzero

theorem node_cell (h : pool.Strung Keeps Spot most ledger blocks) {p : FreeBlock}
    (mem : p ∈ sentinel :: blocks) :
    p.address = sentinelAddress ∨ p.address ∈ allCells (Arena.unit A) blocks := by
  rcases List.mem_cons.1 mem with rfl | mem
  · exact .inl rfl
  · exact .inr (mem_allCells.2 ⟨p, mem, address_mem_cells (h.nonempty p mem)⟩)

theorem node_spot (h : pool.Strung Keeps Spot most ledger blocks) {p : FreeBlock}
    (mem : p ∈ sentinel :: blocks) : p.address = sentinelAddress ∨ Spot p.address := by
  rcases List.mem_cons.1 mem with rfl | mem
  · exact .inl rfl
  · exact .inr (h.placed p mem).spot

theorem leads (h : pool.Strung Keeps Spot most ledger blocks) {init high : List FreeBlock}
    (nodes : sentinel :: blocks = init ++ high) :
    firstAddress high = sentinelAddress ∨ Spot (firstAddress high) := by
  cases high with
  | nil => exact .inl rfl
  | cons b high => exact h.node_spot (nodes ▸ by simp)

theorem node_size_le (h : pool.Strung Keeps Spot most ledger blocks) {p : FreeBlock}
    (mem : p ∈ sentinel :: blocks) : p.size ≤ most := by
  rcases List.mem_cons.1 mem with rfl | mem
  · exact Nat.zero_le _
  · exact (h.placed p mem).size_le

theorem node_stop_le (h : pool.Strung Keeps Spot most ledger blocks) {p : FreeBlock}
    (mem : p ∈ sentinel :: blocks) : p.stop (Arena.unit A) ≤ Size.greatest := by
  rcases List.mem_cons.1 mem with rfl | mem
  · simp only [stop, sentinel, sentinelAddress, Nat.zero_mul]
    exact Nat.zero_le _
  · exact (h.placed p mem).stop_le

variable (slate : Arena.Slate Keeps Spot most) (h : pool.Strung Keeps Spot most ledger blocks)

include slate h

theorem ascending : Ascending blocks :=
  h.ordered.ascending slate.unit_pos h.nonempty

theorem ring : pool.Ring blocks where
  links := by
    rw [h.sentinel_eq]
    exact links_of_linked slate h.keeps h.linked.2 h.nonzero
  ascending := h.ascending slate
  sentinel := by rw [h.sentinel_eq]

/-- The blocks are fewer than the addresses that they lie on. -/
theorem length_lt : blocks.length < Size.bound := by
  have room := h.ordered.units_le (Nat.zero_le _) (fun _ _ => Nat.zero_le _)
    fun b mem => (h.placed b mem).stop_le
  have bytes := Nat.le_mul_of_pos_right (units blocks) slate.unit_pos
  have count := length_le_units h.nonempty
  have bound : Size.greatest < Size.bound := by decide
  omega

theorem blocks_eq : pool.blocks = .ok blocks := by
  cases used : pool.freeList.cursor with
  | none =>
      rw [blocks_of_unused used, h.unused used]
  | some cursor =>
      exact (h.ring slate).blocks_eq (by simp [used]) (h.length_lt slate)

theorem lists {cursor : Nat} (at_cursor : pool.freeList.cursor = some cursor) :
    pool.Lists Keeps Spot most blocks cursor :=
  ⟨⟨ledger, h⟩, h.blocks_eq slate, at_cursor⟩

/-- No node stands in the header of another. -/
theorem pairwise_beside :
    (sentinel :: blocks).Pairwise fun b c => Beside (Arena.unit A) b.address c.address := by
  refine List.pairwise_cons.2 ⟨?_, ?_⟩
  · intro b mem
    exact ⟨(h.nonzero b mem).symm, .inl rfl⟩
  · apply h.ordered.pairwise_disjoint.imp_of_mem
    intro b c hb hc disjoint
    refine (disjoint.apart ?_ ?_).beside slate.unit_pos
    · exact address_mem_cells (h.nonempty b hb)
    · exact address_mem_cells (h.nonempty c hc)

theorem beside {init high : List FreeBlock} {p : FreeBlock}
    (nodes : sentinel :: blocks = init ++ p :: high) :
    ∀ c ∈ init ++ high, Beside (Arena.unit A) c.address p.address := by
  have pairs := h.pairwise_beside slate
  rw [nodes, List.pairwise_middle Beside.symm] at pairs
  exact fun c mem => ((List.pairwise_cons.1 pairs).1 c mem).symm

/-- No unit of a block is the header of another node. -/
theorem beside_cell {low high : List FreeBlock} {b : FreeBlock} {x : Nat}
    (cut : blocks = low ++ b :: high) (cell : x ∈ b.cells (Arena.unit A)) :
    ∀ c ∈ sentinel :: (low ++ high), Beside (Arena.unit A) c.address x := by
  subst cut
  have disjoint := h.ordered.pairwise_disjoint
  rw [List.pairwise_middle FreeBlock.Disjoint.symm] at disjoint
  have nonzero : x ≠ sentinelAddress :=
    Nat.ne_of_gt (Nat.lt_of_lt_of_le (Nat.pos_of_ne_zero (h.nonzero b (by simp))) (cell_bounds cell).1)
  apply beside_nodes slate.unit_pos nonzero
  intro c mem
  have nonempty : 0 < c.size := h.nonempty c (by simp at mem ⊢; tauto)
  have other := (List.pairwise_cons.1 disjoint).1 c mem
  exact other.symm.apart (address_mem_cells nonempty) cell

end Strung

end Pool

end NextFit
