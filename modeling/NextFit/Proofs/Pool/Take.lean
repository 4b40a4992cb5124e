import NextFit.Proofs.Pool.Holds

/-! # Taking a block from a pool

A strung pool gives what `nextFit?` picks, and keeps what `carve` leaves. A whole block is taken by
changing the link to it, which may be the sentinel's; a tail is taken by changing the size of its
block, if there is a spot for the header of the tail.
-/

namespace NextFit

namespace FreeBlock

variable {unit units cursor : Nat} {b c : FreeBlock} {blocks low high : List FreeBlock}

/-- What is taken from a block: its last units. -/
def tail (unit units : Nat) (b : FreeBlock) : FreeBlock :=
  { address := b.address + (b.size - units) * unit, size := units }

theorem cells_tail (fits : units ≤ b.size) :
    b.cells unit = cells unit { b with size := b.size - units } ++ (b.tail unit units).cells unit := by
  have parts := cells_add unit b.address (b.size - units) units
  rw [Nat.sub_add_cancel fits] at parts
  exact parts

/-- What is taken and what is left are the old list. -/
theorem tile_carve (ascending : Ascending blocks) (mem : b ∈ blocks) (fits : units ≤ b.size) :
    Tile unit (b.tail unit units :: carve units b.address blocks) blocks := by
  obtain ⟨low, high, rfl⟩ := List.append_of_mem mem
  rw [carve_of_cut units ascending, Tile]
  have left : allCells unit (if b.size ≤ units then [] else [{ b with size := b.size - units }]) =
      cells unit { b with size := b.size - units } := by
    split
    case isTrue whole =>
      rw [Nat.sub_eq_zero_of_le whole]
      rfl
    case isFalse => exact List.append_nil _
  simp only [allCells_cons, allCells_append, left, cells_tail fits, List.perm_iff_count,
    List.count_append]
  omega

theorem carve_subset (ascending : Ascending blocks) (mem : b ∈ blocks) (fits : units ≤ b.size) :
    allCells unit (carve units b.address blocks) ⊆ allCells unit blocks := by
  intro x cell
  exact (tile_carve ascending mem fits).subset (List.mem_append_right _ cell)

theorem carve_whole (ascending : Ascending (low ++ b :: high)) (fits : b.size ≤ units) :
    carve units b.address (low ++ b :: high) = low ++ high := by
  rw [carve_of_cut units ascending, if_pos fits, List.append_nil]

theorem carve_tail (ascending : Ascending (low ++ b :: high)) (more : units < b.size) :
    carve units b.address (low ++ b :: high) = low ++ { b with size := b.size - units } :: high := by
  rw [carve_of_cut units ascending, if_neg (Nat.not_le.2 more), List.append_assoc]
  rfl

/-- Blocks keep their order when one of them ends earlier. -/
theorem pairwise_shrink {R : Nat → Nat → Prop} (earlier : ∀ {x y z}, x ≤ y → R y z → R x z)
    (h : (low ++ b :: high).Pairwise fun d e => R (d.stop unit) e.address)
    (address : c.address = b.address) (shorter : c.stop unit ≤ b.stop unit) :
    (low ++ c :: high).Pairwise fun d e => R (d.stop unit) e.address := by
  obtain ⟨lows, rest, across⟩ := List.pairwise_append.1 h
  obtain ⟨gaps, highs⟩ := List.pairwise_cons.1 rest
  refine List.pairwise_append.2 ⟨lows, List.pairwise_cons.2 ⟨?_, highs⟩, ?_⟩
  · intro d mem
    exact earlier shorter (gaps d mem)
  · intro d mem e later
    rcases List.mem_cons.1 later with rfl | later
    · exact address.symm ▸ across d mem b List.mem_cons_self
    · exact across d mem e (List.mem_cons_of_mem _ later)

theorem stop_shrink_le (b : FreeBlock) (units : Nat) :
    FreeBlock.stop unit { b with size := b.size - units } ≤ b.stop unit :=
  Nat.add_le_add_left (Nat.mul_le_mul_right _ (Nat.sub_le _ _)) _

theorem Ordered.shrink (h : Ordered unit (low ++ b :: high)) (units : Nat) :
    Ordered unit (low ++ { b with size := b.size - units } :: high) :=
  pairwise_shrink Nat.le_trans h rfl (stop_shrink_le b units)

/-- Taking less than there is leaves a free list. -/
theorem separated_carve (h : Separated unit blocks) (mem : b ∈ blocks) :
    Separated unit (carve units b.address blocks) := by
  obtain ⟨low, high, rfl⟩ := List.append_of_mem mem
  rw [carve_of_cut units h.ascending]
  split
  case isTrue =>
    rw [List.append_nil]
    exact h.sublist ((List.sublist_cons_self b high).append_left low)
  case isFalse =>
    rw [List.append_assoc]
    exact pairwise_shrink Nat.lt_of_le_of_lt h rfl (stop_shrink_le b units)

theorem Placed.shrink {Spot : Nat → Prop} {most : Nat} (h : b.Placed unit Spot most)
    (more : units < b.size) :
    FreeBlock.Placed unit Spot most { b with size := b.size - units } where
  nonempty := Nat.sub_pos_of_lt more
  nonzero := h.nonzero
  spot := h.spot
  stop_le := Nat.le_trans (stop_shrink_le b units) h.stop_le
  size_le := Nat.le_trans (Nat.sub_le _ _) h.size_le

end FreeBlock

namespace Pool

open FreeBlock

variable {A : Type} [Arena A] {Keeps : A → Ledger → Prop} {Spot : Nat → Prop} {most : Nat}
  {pool pool' : Pool A} {ledger ledger' : Ledger} {blocks low high : List FreeBlock}
  {b : FreeBlock} {units : Nat}

theorem yields_take_none (positive : 0 < units)
    (searched : pool.search units pool.start = .ok none) :
    (take units).Yields pool (.ok none) (pool.withCursor pool.start) := by
  rw [← search_withCursor pool pool.start] at searched
  refine .bind (.require positive) (.bind (yields_useCursor pool) (.bind (.query searched) ?_))
  exact .bind (.report _) (.pure _)

theorem tail_of_carveTail {fit : Fit} {tail : Nat}
    (cut : (carveTail units fit).Yields pool (.ok tail) pool') :
    tail = fit.block + (fit.header.size - units) * Arena.unit A := by
  obtain ⟨_, _, -, h⟩ := cut.exists_of_bind
  obtain ⟨stop, _, ends, h⟩ := h.exists_of_bind
  obtain ⟨stopped, rfl⟩ := ends.of_lift
  obtain ⟨_, _, -, h⟩ := h.exists_of_bind
  obtain ⟨⟨⟩, -⟩ := h.unique (.bind (.report _) (.pure _))
  exact Header.eq_of_stop stopped

/-- Where a pool gives units, they are the last ones of what the search has found, and the cursor is the
    node before that. It gives none only where nothing was found. -/
theorem search_of_take {result : Option Nat} (taken : (take units).Yields pool (.ok result) pool') :
    ∃ found, pool.search units pool.start = .ok found ∧
      result = found.map (fun fit => fit.block + (fit.header.size - units) * Arena.unit A) ∧
      pool'.freeList.cursor = some ((found.map (·.before)).getD pool.start) := by
  obtain ⟨_, _, checked, h⟩ := taken.exists_of_bind
  obtain ⟨-, rfl⟩ := checked.of_require
  obtain ⟨start, _, used, h⟩ := h.exists_of_bind
  obtain ⟨⟨⟩, rfl⟩ := used.unique (yields_useCursor _)
  obtain ⟨found, _, queried, h⟩ := h.exists_of_bind
  obtain ⟨searched, rfl⟩ := queried.of_query
  rw [search_withCursor] at searched
  refine ⟨found, searched, ?_⟩
  cases found with
  | none =>
      obtain ⟨⟨⟩, rfl⟩ := h.unique (.bind (.report _) (.pure _))
      exact ⟨rfl, rfl⟩
  | some fit =>
      simp only at h
      split at h
      case isTrue same =>
        obtain ⟨_, _, -, h⟩ := h.exists_of_bind
        obtain ⟨_, _, -, h⟩ := h.exists_of_bind
        obtain ⟨⟨⟩, rfl⟩ := h.unique (.bind (.update _) (.pure _))
        simp [same]
      case isFalse =>
        obtain ⟨tail, _, cut, h⟩ := h.exists_of_bind
        obtain ⟨⟨⟩, rfl⟩ := h.unique (.bind (.update _) (.pure _))
        exact ⟨congrArg some (tail_of_carveTail cut), rfl⟩

namespace Strung

theorem take_none (slate : Arena.Slate Keeps Spot most)
    (h : pool.Strung Keeps Spot most ledger blocks) (positive : 0 < units)
    (none : nextFit? units pool.start blocks = none) :
    (take units).Yields pool (.ok Option.none) (pool.withCursor pool.start) := by
  have searched := (h.ring slate).search_eq h.node positive (h.length_lt slate)
  rw [none] at searched
  exact yields_take_none positive searched

theorem unlink (slate : Arena.Slate Keeps Spot most)
    (h : pool.Strung Keeps Spot most ledger (low ++ b :: high)) :
    ∃ pool' ledger', (unlink (fitAt (low ++ b :: high) b)).Yields pool (.ok ()) pool' ∧
      Ledger.Frame (Arena.unit A) (allCells (Arena.unit A) (low ++ b :: high)) ledger ledger' ∧
      (∃ next, ledger'.header? b.address = some { size := b.size, next }) ∧
      ∀ address, IsNode (low ++ high) address →
        (pool'.withCursor address).Strung Keeps Spot most ledger' (low ++ high) := by
  obtain ⟨init, p, before, last⟩ := exists_lastFrom sentinel low
  have nodes : sentinel :: (low ++ b :: high) = init ++ p :: b :: high := by
    rw [← List.cons_append, before, List.append_assoc, List.singleton_append]
  have nodes' : sentinel :: (low ++ high) = init ++ p :: high := by
    rw [← List.cons_append, before, List.append_assoc, List.singleton_append]
  have linked := h.linked
  rw [nodes] at linked
  have found := header_of_record? slate h.keeps linked.header
  have mem : p ∈ sentinel :: (low ++ b :: high) := nodes ▸ by simp
  have leads := h.leads (show sentinel :: (low ++ b :: high) = (init ++ [p, b]) ++ high by simp [nodes])
  obtain ⟨pool', ledger', set, wrote⟩ := yields_setHeader slate h.keeps
    { size := p.size, next := firstAddress high } (h.node_spot mem) leads (h.node_size_le mem)
  have beside := h.beside slate nodes
  have fit : fitAt (low ++ b :: high) b =
      { before := p.address, block := b.address,
        header := { size := b.size, next := firstAddress high } } := by
    rw [last]
    exact fitAt_cut (h.ascending slate)
  refine ⟨pool', ledger', ?_, wrote.frame _ (h.node_cell mem), ⟨firstAddress high, ?_⟩, ?_⟩
  · rw [fit]
    exact .bind (.query found) set
  · have apart := h.nonzero b (by simp)
    rw [← record?_of_ne apart, wrote.record_beside _ (beside b (by simp))]
    exact linked.behind.2.1
  · intro address node
    refine ⟨wrote.keeps, ?_, ?_, ?_, node, nofun⟩
    · rw [nodes']
      refine linked.relink ?_ rfl ⟨wrote.record_self, ?_⟩
      · intro c mem
        exact wrote.record_beside _ (beside c (by simp [mem]))
      · apply linked.behind.2.2.congr
        intro c mem
        exact wrote.record_beside _ (beside c (by simp [mem]))
    · exact h.ordered.sublist ((List.sublist_cons_self b high).append_left low)
    · exact fun c mem => h.placed c (by simp at mem ⊢; tauto)

theorem carveTail (slate : Arena.Slate Keeps Spot most)
    (h : pool.Strung Keeps Spot most ledger (low ++ b :: high)) (positive : 0 < units)
    (more : units < b.size) (spot : Spot (b.tail (Arena.unit A) units).address) :
    ∃ pool' ledger', (carveTail units (fitAt (low ++ b :: high) b)).Yields pool
        (.ok (b.tail (Arena.unit A) units).address) pool' ∧
      Ledger.Frame (Arena.unit A) (allCells (Arena.unit A) (low ++ b :: high)) ledger ledger' ∧
      (∃ next, ledger'.header? (b.tail (Arena.unit A) units).address = some { size := units, next }) ∧
      ∀ address, IsNode (low ++ { b with size := b.size - units } :: high) address →
        (pool'.withCursor address).Strung Keeps Spot most ledger'
          (low ++ { b with size := b.size - units } :: high) := by
  have nodes : sentinel :: (low ++ b :: high) = (sentinel :: low) ++ b :: high := rfl
  have mem : b ∈ sentinel :: (low ++ b :: high) := by simp
  have placed := h.placed b (by simp)
  have leads := h.leads (show sentinel :: (low ++ b :: high) = (sentinel :: low ++ [b]) ++ high by simp)
  have cell : (b.tail (Arena.unit A) units).address ∈ b.cells (Arena.unit A) :=
    mem_cells.2 ⟨b.size - units, by omega, rfl⟩
  have inside : (b.tail (Arena.unit A) units).address ∈ allCells (Arena.unit A) (low ++ b :: high) :=
    mem_allCells.2 ⟨b, by simp, cell⟩
  have apart : (b.tail (Arena.unit A) units).address ≠ sentinelAddress :=
    Nat.ne_of_gt (Nat.lt_of_lt_of_le (Nat.pos_of_ne_zero placed.nonzero) (cell_bounds cell).1)
  -- First the block shrinks.
  obtain ⟨shrunk, ledger₁, set, wrote⟩ := yields_setHeader slate h.keeps
    { size := b.size - units, next := firstAddress high } (h.node_spot mem) leads
    (placed.shrink more).size_le
  -- Then the tail gets a header of its own.
  obtain ⟨pool', ledger', set', wrote'⟩ := yields_setHeader slate wrote.keeps
    { size := units, next := sentinelAddress } (.inr spot) (.inl rfl)
    (Nat.le_trans (Nat.le_of_lt more) placed.size_le)
  have frame := (wrote.frame _ (h.node_cell mem)).trans (wrote'.frame _ (.inr inside))
  rw [setHeader, if_neg apart] at set'
  have stop : ({ size := b.size - units, next := firstAddress high } : Header).stop b.address
      (Arena.unit A) = .ok (b.tail (Arena.unit A) units).address := by
    apply Header.stop_of_lt
    exact Nat.lt_of_le_of_lt (placed.shrink more).stop_le (by decide)
  have headBeside : Beside (Arena.unit A) b.address (b.tail (Arena.unit A) units).address := by
    have first : 1 * Arena.unit A ≤ (b.size - units) * Arena.unit A :=
      Nat.mul_le_mul_right _ (Nat.sub_pos_of_lt more)
    refine Apart.beside slate.unit_pos (.inl ?_)
    simp only [tail]
    omega
  have beside := h.beside slate nodes
  have besideTail := h.beside_cell slate rfl cell
  refine ⟨pool', ledger', ?_, frame, ⟨sentinelAddress, ?_⟩, ?_⟩
  · rw [fitAt_cut (h.ascending slate)]
    refine .bind set (.bind (.lift stop) (.bind set' (.bind (.report _) (.pure _))))
  · rw [← record?_of_ne apart]
    exact wrote'.record_self
  · intro address node
    have same : ∀ c ∈ (sentinel :: low) ++ high,
        pool'.record? ledger' c.address = pool.record? ledger c.address := by
      intro c mem
      rw [wrote'.record_beside _ (besideTail c mem), wrote.record_beside _ (beside c mem)]
    refine ⟨wrote'.keeps, ?_, h.ordered.shrink units, ?_, node, nofun⟩
    · have linked := h.linked
      rw [nodes] at linked
      refine linked.relink (fun c mem => same c (List.mem_append_left _ mem)) rfl ⟨?_, ?_⟩
      · exact (wrote'.record_beside _ headBeside).trans wrote.record_self
      · exact linked.behind.2.congr fun c mem => same c (List.mem_append_right _ mem)
    · intro c mem
      rcases List.mem_append.1 mem with lower | other
      · exact h.placed c (List.mem_append_left _ lower)
      · rcases List.mem_cons.1 other with rfl | higher
        · exact placed.shrink more
        · exact h.placed c (List.mem_append_right _ (List.mem_cons_of_mem _ higher))

theorem take_some (slate : Arena.Slate Keeps Spot most)
    (h : pool.Strung Keeps Spot most ledger blocks) (positive : 0 < units)
    (some : nextFit? units pool.start blocks = some b)
    (spot : Spot (b.tail (Arena.unit A) units).address) :
    ∃ pool' ledger', (take units).Yields pool
        (.ok (Option.some (b.tail (Arena.unit A) units).address)) pool' ∧
      pool'.Strung Keeps Spot most ledger' (carve units b.address blocks) ∧
      pool'.freeList.cursor = Option.some (below blocks b.address) ∧
      Ledger.Frame (Arena.unit A) (allCells (Arena.unit A) blocks) ledger ledger' ∧
      ∃ next, ledger'.header? (b.tail (Arena.unit A) units).address =
        Option.some { size := units, next } := by
  obtain ⟨mem, fits⟩ := nextFit?_spec some
  have used := h.withCursor h.node
  have searched := (used.ring slate).search_eq h.node positive (h.length_lt slate)
  rw [some] at searched
  obtain ⟨low, high, rfl⟩ := List.append_of_mem mem
  have ascending := h.ascending slate
  have node := isNode_lastFrom low
  cases Nat.lt_or_eq_of_le fits with
  | inl more =>
      obtain ⟨pool', ledger', cut, frame, header, strung⟩ := used.carveTail slate positive more spot
      refine ⟨_, ledger', ?_, carve_tail ascending more ▸ strung _ ?_, rfl, frame, header⟩
      · refine .bind (.require positive) (.bind (yields_useCursor pool) (.bind (.query searched) ?_))
        have other : (fitAt (low ++ b :: high) b).header.size ≠ units := Nat.ne_of_gt more
        simp only [Option.map_some, if_neg other]
        exact .bind cut (.bind (.update _) (.pure _))
      · rw [below_at ascending]
        exact node _
  | inr exact =>
      subst exact
      have whole : (b.tail (Arena.unit A) b.size).address = b.address := by simp [tail]
      obtain ⟨pool', ledger', cut, frame, header, strung⟩ := used.unlink slate
      rw [whole]
      refine ⟨_, ledger', ?_, carve_whole ascending (Nat.le_refl _) ▸ strung _ ?_, rfl, frame, header⟩
      · refine .bind (.require positive) (.bind (yields_useCursor pool) (.bind (.query searched) ?_))
        have same : (fitAt (low ++ b :: high) b).header.size = b.size := rfl
        simp only [Option.map_some, if_pos same]
        exact .bind (.report _) (.bind cut (.bind (.update _) (.pure _)))
      · rw [below_at ascending]
        exact node _

end Strung

namespace Holds

theorem take_none (laws : Arena.Laws Keeps) (h : pool.Holds Keeps ledger blocks)
    (positive : 0 < units) (none : nextFit? units pool.start blocks = none) :
    (take units).Yields pool (.ok Option.none) (pool.withCursor pool.start) :=
  (h.strung laws).take_none (laws.slate h.wellFormed) positive none

theorem take_some (laws : Arena.Laws Keeps) (h : pool.Holds Keeps ledger blocks)
    (positive : 0 < units) (some : nextFit? units pool.start blocks = some b) :
    ∃ pool' ledger', (take units).Yields pool
        (.ok (Option.some (b.tail (Arena.unit A) units).address)) pool' ∧
      pool'.Holds Keeps ledger' (carve units b.address blocks) ∧
      pool'.freeList.cursor = Option.some (below blocks b.address) ∧
      Ledger.Frame (Arena.unit A) (allCells (Arena.unit A) blocks) ledger ledger' ∧
      ∃ next, ledger'.header? (b.tail (Arena.unit A) units).address =
        Option.some { size := units, next } := by
  obtain ⟨mem, fits⟩ := nextFit?_spec some
  have cell : (b.tail (Arena.unit A) units).address ∈ allCells (Arena.unit A) blocks :=
    mem_allCells.2 ⟨b, mem, mem_cells.2 ⟨b.size - units, by omega, rfl⟩⟩
  obtain ⟨pool', ledger', taken, strung, cursor, frame, header⟩ :=
    (h.strung laws).take_some (laws.slate h.wellFormed) positive some (h.owned cell)
  refine ⟨pool', ledger', taken, ?_, cursor, frame, header⟩
  exact strung.holds h.wellFormed (separated_carve h.separated mem)
    (List.Subset.trans (carve_subset h.separated.ascending mem fits) h.owned)

end Holds

end Pool

end NextFit
