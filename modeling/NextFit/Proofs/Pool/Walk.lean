import NextFit.Proofs.Pool.Lap

/-! # Walks around the ring

A pool whose links run through blocks in ascending order, from the sentinel and back to it, is a
ring. The two walks only read: the search passes the blocks on a lap behind the cursor and settles
on the first that fits, and the walk to a slot ends at the highest node below the block, wherever it
starts. Neither takes more steps than the ring has nodes. Sizes play no part in the order, so the
blocks of a ring may even overlap.
-/

namespace NextFit.Pool

open FreeBlock

variable {A : Type} [Arena A] {pool : Pool A} {blocks low high : List FreeBlock}

/-- The links run through these blocks in ascending order. -/
structure Ring (pool : Pool A) (blocks : List FreeBlock) : Prop where
  links : pool.Links pool.freeList.sentinel.next blocks
  ascending : Ascending blocks
  sentinel : pool.freeList.sentinel.size = 0

/-- The list of free blocks is read off in one lap. -/
theorem Ring.blocks_eq (ring : pool.Ring blocks) (used : pool.freeList.cursor ≠ none)
    (enough : blocks.length < Size.bound) : pool.blocks = .ok blocks := by
  obtain ⟨cursor, used⟩ := Option.ne_none_iff_exists'.1 used
  simp only [Pool.blocks, used]
  exact blocksFrom_of_links ring.links enough

/-! ## Searching -/

/-- What a search finds at a block. -/
def fitAt (blocks : List FreeBlock) (b : FreeBlock) : Fit where
  before := below blocks b.address
  block := b.address
  header := { size := b.size, next := above blocks b.address }

theorem fitAt_cut {b : FreeBlock} (ascending : Ascending (low ++ b :: high)) :
    fitAt (low ++ b :: high) b =
      { before := lastFrom sentinelAddress low, block := b.address,
        header := { size := b.size, next := firstAddress high } } := by
  rw [fitAt, below_at ascending, above_at ascending]

theorem lap_cut (lows : ∀ c ∈ low, c.address ≤ lastFrom sentinelAddress low)
    (highs : ∀ c ∈ high, lastFrom sentinelAddress low < c.address) :
    lap (lastFrom sentinelAddress low) (low ++ high) = high ++ low := by
  rw [lap, List.filter_append, List.filter_append,
    List.filter_eq_nil_iff.2 (by simpa using lows), List.filter_eq_self.2 (by simpa using highs),
    List.filter_eq_self.2 (by simpa using lows), List.filter_eq_nil_iff.2 (by simpa using highs),
    List.nil_append, List.append_nil]

/-- The node that leads to a block is the one in front of it. -/
theorem Ring.below_of_leadsTo (ring : pool.Ring blocks) {address : Nat} {b : FreeBlock}
    (node : IsNode blocks address) (leads : pool.LeadsTo address b.address)
    (mem : b ∈ blocks) : address = below blocks b.address := by
  obtain ⟨size, found⟩ := leads
  obtain ⟨low, high, rfl, rfl, next, -, -⟩ :=
    exists_cut_of_header ring.links ring.ascending node found
  cases high with
  | nil => exact absurd next (ring.links.ne_sentinel b mem)
  | cons c rest => exact (show b.address = c.address from next) ▸ (below_at ring.ascending).symm

theorem Ring.header_eq (ring : pool.Ring blocks) {b : FreeBlock} (mem : b ∈ blocks) :
    pool.header b.address = .ok (fitAt blocks b).header := by
  obtain ⟨low, high, rfl⟩ := List.append_of_mem mem
  rw [fitAt_cut ring.ascending]
  exact ring.links.behind.header.2

/-- Without a node that fits, a search ends when the lap is over. -/
theorem search_none {units start : Nat} (links : pool.Links pool.freeList.sentinel.next blocks)
    (ascending : Ascending blocks) (node : IsNode blocks start)
    (empty : pool.freeList.sentinel.size < units) (small : ∀ b ∈ blocks, b.size < units)
    (enough : blocks.length < Size.bound) : pool.search units start = .ok none := by
  obtain ⟨first, rest, passed, last, later, header, leads, lap, split, walk, found, stops⟩ :=
    exists_search_walk units links ascending node
  obtain ⟨rfl, -⟩ := search_walk_whole links ascending lap split found stops empty small
  have short := header_size_lt links node found empty small
  rw [search_of_walk leads walk found (Nat.lt_of_le_of_lt (length_le_of_split lap split) enough)]
  exact congrArg Except.ok (if_neg (Nat.not_le_of_lt short))

/-- In front of the first block that fits, a lap passes blocks that do not, and maybe the sentinel. -/
theorem Ring.exists_passed (ring : pool.Ring blocks) {units start : Nat} {b : FreeBlock}
    (node : IsNode blocks start) (positive : 0 < units) (first : nextFit? units start blocks = some b) :
    ∃ rest passed later, (start :: rest).IsRotated (nodes blocks) ∧
      rest ++ [start] = passed ++ b.address :: later ∧
      ∀ node ∈ passed, ∀ header, pool.header node = .ok header → header.size < units := by
  obtain ⟨low, high, rfl, rfl, lows, highs⟩ := node.cut ring.ascending ring.links.ne_sentinel
  obtain ⟨init, p, split, last⟩ := exists_lastFrom { address := sentinelAddress, size := 0 } low
  have lower : nodes low = init.map (·.address) ++ [lastFrom sentinelAddress low] := by
    rw [← last, ← List.map_singleton, ← List.map_append, ← split]
    rfl
  have round : (high ++ { address := sentinelAddress, size := 0 } :: low).find? (units ≤ ·.size) =
      some b := by
    rw [List.find?_append, List.find?_cons_of_neg (by simpa using Nat.ne_of_gt positive),
      ← List.find?_append, ← lap_cut lows highs]
    exact first
  obtain ⟨-, passed, later, visited, small⟩ := List.find?_eq_some_iff_append.1 round
  refine ⟨high.map (·.address) ++ init.map (·.address), passed.map (·.address),
    later.map (·.address), ?_, ?_, ?_⟩
  · have whole : nodes (low ++ high) = nodes low ++ high.map (·.address) := by simp [nodes]
    rw [whole, lower, List.append_assoc, List.singleton_append, ← List.cons_append]
    exact List.isRotated_append
  · rw [List.append_assoc, ← lower, ← List.map_cons, ← List.map_append, ← visited, List.map_append]
    rfl
  · intro _ mem header found
    obtain ⟨c, inside, rfl⟩ := List.mem_map.1 mem
    have short : c.size < units := by simpa using small c inside
    have present : c ∈ high ++ { address := sentinelAddress, size := 0 } :: low :=
      visited ▸ List.mem_append_left _ inside
    rcases List.mem_append.1 present with above | other
    · cases found.symm.trans (ring.header_eq (List.mem_append_right _ above))
      exact short
    · rcases List.mem_cons.1 other with rfl | below
      · cases found
        exact ring.sentinel ▸ positive
      · cases found.symm.trans (ring.header_eq (List.mem_append_left _ below))
        exact short

/-- A search settles on the first block of the lap that fits. -/
theorem Ring.search_some (ring : pool.Ring blocks) {units start : Nat} {b : FreeBlock}
    (node : IsNode blocks start) (positive : 0 < units) (first : nextFit? units start blocks = some b)
    (enough : blocks.length < Size.bound) : pool.search units start = .ok (some (fitAt blocks b)) := by
  obtain ⟨mem, fits⟩ := nextFit?_spec first
  obtain ⟨rest, passed, later, lap, split, small⟩ := ring.exists_passed node positive first
  have inside := prefix_of_split split
  have fresh : start ∉ passed := fun mem =>
    (List.nodup_cons.1 (nodup_of_lap ring.links ring.ascending lap)).1 (inside.subset mem)
  have goesOn : ∀ node ∈ passed, ∀ header, pool.header node = .ok header →
      ¬ EndsSearch units start node header := by
    intro node mem header found
    refine not_or.2 ⟨Nat.not_le_of_lt (small node mem header found), ?_⟩
    rintro rfl
    exact fresh mem
  have before : passed.getLastD start = below blocks b.address := by
    have chain := isChain_of_lap ring.links lap
    rw [split] at chain
    refine ring.below_of_leadsTo ?_ (leadsTo_of_isChain chain) mem
    refine mem_nodes_iff.1 (lap.mem_iff.1 ?_)
    exact List.cons_subset_cons _ inside.subset List.getLastD_mem_cons
  obtain ⟨top, leads, walk⟩ := walk_of_lap ring.links lap split goesOn (ring.header_eq mem) (.inl fits)
  rw [search_of_walk leads walk (ring.header_eq mem)
    (Nat.lt_of_le_of_lt (length_le_of_split lap split) enough), before]
  exact congrArg Except.ok (if_pos fits)

theorem Ring.search_eq (ring : pool.Ring blocks) {units start : Nat} (node : IsNode blocks start)
    (positive : 0 < units) (enough : blocks.length < Size.bound) :
    pool.search units start = .ok ((nextFit? units start blocks).map (fitAt blocks)) := by
  cases first : nextFit? units start blocks with
  | none =>
      exact search_none ring.links ring.ascending node (by rwa [ring.sentinel])
        (nextFit?_eq_none_iff.1 first) enough
  | some b => exact ring.search_some node positive first enough

/-! ## Walking to a slot -/

/-- The walk to a slot ends at the highest node below the block. -/
theorem slot_eq_below {block start : Nat} (links : pool.Links pool.freeList.sentinel.next blocks)
    (ascending : Ascending blocks) (node : IsNode blocks start) (other : ¬ IsNode blocks block)
    (enough : blocks.length < Size.bound) : pool.slot block start = .ok (below blocks block) := by
  obtain ⟨passed, later, lap, walk⟩ := exists_slot_walk links ascending node other
  have whole := lap.perm.length_eq
  rw [length_nodes, List.length_append, List.length_cons] at whole
  rw [slot, slotFrom_of_walk walk, if_pos (by omega)]

theorem Ring.slot_eq {block start : Nat} (ring : pool.Ring blocks) (node : IsNode blocks start)
    (positive : block ≠ sentinelAddress) (apart : ∀ c ∈ blocks, c.address ≠ block)
    (enough : blocks.length < Size.bound) : pool.slot block start = .ok (below blocks block) :=
  slot_eq_below ring.links ring.ascending node
    (not_or.2 ⟨positive, fun ⟨c, mem, same⟩ => apart c mem same⟩) enough

end NextFit.Pool
