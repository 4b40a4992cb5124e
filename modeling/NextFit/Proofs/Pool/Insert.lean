import NextFit.Proofs.Pool.Holds

/-! # Giving a block back to a pool

Behind an insertion a pool is strung on what `release` makes of its list. The block goes between the two
nodes at the cut where its address lies: it takes in the node above if they touch, and the node
below takes in the outcome if these touch. The list `pushFront p (pushFront b high)` has the same
two steps.
-/

namespace NextFit

namespace FreeBlock

variable {unit : Nat} {b p : FreeBlock} {blocks init high : List FreeBlock}

theorem exists_pushFront (unit : Nat) (b : FreeBlock) (high : List FreeBlock) :
    ∃ b' skipped high', pushFront unit b high = b' :: high' ∧ b'.address = b.address ∧
      high = skipped ++ high' := by
  cases high with
  | nil => exact ⟨b, [], [], rfl, rfl, rfl⟩
  | cons c rest =>
      simp only [pushFront]
      split
      · exact ⟨_, [c], rest, rfl, rfl, rfl⟩
      · exact ⟨b, [], c :: rest, rfl, rfl, rfl⟩

theorem pushFront_nonempty (nonempty : ∀ c ∈ b :: blocks, 0 < c.size) :
    ∀ c ∈ pushFront unit b blocks, 0 < c.size := by
  cases blocks with
  | nil => exact nonempty
  | cons first rest =>
      simp only [pushFront]
      split
      · intro c mem
        rcases List.mem_cons.1 mem with rfl | later
        · exact Nat.add_pos_left (nonempty b List.mem_cons_self) _
        · exact nonempty c (List.mem_cons_of_mem _ (List.mem_cons_of_mem _ later))
      · exact nonempty

theorem release_nonempty (nonempty : ∀ c ∈ b :: blocks, 0 < c.size) :
    ∀ c ∈ release unit b blocks, 0 < c.size := by
  induction blocks with
  | nil => exact nonempty
  | cons first rest ih =>
      simp only [release]
      split
      · exact pushFront_nonempty nonempty
      · have later := ih fun c mem => nonempty c (by simp at mem ⊢; tauto)
        exact pushFront_nonempty (by simpa [nonempty first] using later)

/-- Every block ends where one of the blocks ends that it was made of. -/
theorem exists_stop_of_mem_pushFront {c : FreeBlock} (mem : c ∈ pushFront unit b blocks) :
    ∃ d ∈ b :: blocks, d.stop unit = c.stop unit := by
  cases blocks with
  | nil => exact ⟨c, mem, rfl⟩
  | cons first rest =>
      simp only [pushFront] at mem
      split at mem
      case isTrue touch =>
        rcases List.mem_cons.1 mem with rfl | later
        · refine ⟨first, by simp, ?_⟩
          simp only [stop, Nat.add_mul] at touch ⊢
          omega
        · exact ⟨c, by simp [later], rfl⟩
      case isFalse => exact ⟨c, mem, rfl⟩

theorem exists_stop_of_mem_release {c : FreeBlock} (mem : c ∈ release unit b blocks) :
    ∃ d ∈ b :: blocks, d.stop unit = c.stop unit := by
  induction blocks generalizing c with
  | nil => exact ⟨c, mem, rfl⟩
  | cons first rest ih =>
      simp only [release] at mem
      split at mem
      case isTrue => exact exists_stop_of_mem_pushFront mem
      case isFalse =>
        obtain ⟨d, pushed, same⟩ := exists_stop_of_mem_pushFront mem
        rcases List.mem_cons.1 pushed with rfl | released
        · exact ⟨d, by simp, same⟩
        · obtain ⟨e, given, same'⟩ := ih released
          exact ⟨e, by simp at given ⊢; tauto, same'.trans same⟩

/-- The blocks of a released list are placed where the given blocks are if their sizes can be told. -/
theorem placed_release {Spot : Nat → Prop} {most : Nat}
    (placed : ∀ c ∈ b :: blocks, c.Placed unit Spot most)
    (fits : ∀ c ∈ release unit b blocks, c.size ≤ most) :
    ∀ c ∈ release unit b blocks, c.Placed unit Spot most := by
  intro c mem
  obtain ⟨d, given, address⟩ : ∃ d ∈ b :: blocks, d.address = c.address := by
    rcases exists_address_of_mem_release mem with same | ⟨old, inside, same⟩
    · exact ⟨b, List.mem_cons_self, same.symm⟩
    · exact ⟨old, List.mem_cons_of_mem _ inside, same⟩
  obtain ⟨e, last, stop⟩ := exists_stop_of_mem_release mem
  constructor
  case nonempty => exact release_nonempty (fun c mem => (placed c mem).nonempty) c mem
  case nonzero => exact address ▸ (placed d given).nonzero
  case spot => exact address ▸ (placed d given).spot
  case stop_le => exact stop ▸ (placed e last).stop_le
  case size_le => exact fits c mem

theorem size_le_stop (positive : 0 < unit) (b : FreeBlock) : b.size ≤ b.stop unit :=
  Nat.le_trans (Nat.le_mul_of_pos_right _ positive) (Nat.le_add_left _ _)

/-- The sentinel precedes the blocks. -/
theorem Separated.nodes (h : Separated unit blocks) (nonzero : ∀ c ∈ blocks, c.address ≠ sentinelAddress) :
    Separated unit (sentinel :: blocks) := by
  refine List.pairwise_cons.2 ⟨?_, h⟩
  intro c mem
  have positive := nonzero c mem
  simp only [Precedes, stop, sentinel, sentinelAddress] at positive ⊢
  omega

theorem release_sentinel (positive : b.address ≠ sentinelAddress)
    (nonzero : ∀ c ∈ blocks, c.address ≠ sentinelAddress) :
    release unit b (sentinel :: blocks) = sentinel :: release unit b blocks := by
  have above : ¬ b.address < sentinel.address := Nat.not_lt_zero _
  rw [release, if_neg above]
  apply pushFront_of_apart
  cases front : release unit b blocks with
  | nil => exact .inr rfl
  | cons c rest =>
      have start : sentinel.stop unit = sentinelAddress := by simp [stop, sentinel, sentinelAddress]
      have mem : c ∈ release unit b blocks := front ▸ List.mem_cons_self
      left
      rw [start]
      rcases exists_address_of_mem_release mem with same | ⟨old, inside, same⟩
      · exact fun zero => positive (same.symm.trans zero.symm)
      · exact fun zero => nonzero old inside (same.trans zero.symm)

/-- The nodes around a place in the ring. -/
theorem exists_slot (ascending : Ascending (sentinel :: blocks))
    (positive : b.address ≠ sentinelAddress) (apart : ∀ c ∈ blocks, c.address ≠ b.address) :
    ∃ init p high, sentinel :: blocks = init ++ p :: high ∧ p.address = below blocks b.address ∧
      (∀ c ∈ init ++ [p], c.address < b.address) ∧ ∀ c ∈ high, b.address < c.address := by
  have lowest : sentinel.address < b.address := Nat.pos_of_ne_zero positive
  have other : ∀ c ∈ sentinel :: blocks, c.address ≠ b.address := by
    intro c mem
    rcases List.mem_cons.1 mem with rfl | mem
    · exact Nat.ne_of_lt lowest
    · exact apart c mem
  obtain ⟨low, high, nodes, lows, highs⟩ := ascending.exists_cut other
  have same : below blocks b.address = below (sentinel :: blocks) b.address := by
    rw [below, below, List.filter_cons_of_pos (by simpa using lowest)]
    rfl
  rw [same, nodes, below_of_cut lows fun c mem => Nat.le_of_lt (highs c mem)]
  rcases List.eq_nil_or_concat low with rfl | ⟨init, p, rfl⟩
  · have first : sentinel ∈ [] ++ high := nodes ▸ List.mem_cons_self
    exact absurd (highs _ first) (Nat.lt_asymm lowest)
  · rw [List.concat_eq_append] at *
    refine ⟨init, p, high, ?_, (lastFrom_concat _ _ _).symm, lows, highs⟩
    rw [List.append_assoc]
    rfl

/-- A node that takes in what is above it stays where it is. -/
theorem isNode_of_pushFront (nodes : sentinel :: blocks = init ++ pushFront unit p high) :
    IsNode blocks p.address := by
  obtain ⟨p', -, rest, front, address, -⟩ := exists_pushFront unit p high
  have mem : p' ∈ sentinel :: blocks := by
    rw [nodes, front]
    exact List.mem_append_right _ List.mem_cons_self
  rw [← address]
  rcases List.mem_cons.1 mem with rfl | inside
  · exact .inl rfl
  · exact .inr ⟨p', inside, rfl⟩

end FreeBlock

namespace Pool

open FreeBlock

variable {A : Type} [Arena A] {Keeps : A → Ledger → Prop} {Spot : Nat → Prop} {most : Nat}
  {pool : Pool A} {ledger : Ledger} {blocks init skipped high : List FreeBlock} {b p : FreeBlock}

namespace Strung

theorem absorbSuccessor {b' : FreeBlock} {high' : List FreeBlock}
    (slate : Arena.Slate Keeps Spot most) (h : pool.Strung Keeps Spot most ledger blocks) (next : Nat)
    (placed : b.Placed (Arena.unit A) Spot most) (nodes : sentinel :: blocks = init ++ p :: high)
    (joined : pushFront (Arena.unit A) b high = b' :: high') :
    (absorbSuccessor b.address { size := b.size, next } (firstAddress high)).Yields pool
      (.ok { size := b'.size, next := firstAddress high' }) pool := by
  have bound : Size.greatest < Size.bound := by decide
  have ends : ({ size := b.size, next } : Header).stop b.address (Arena.unit A) =
      .ok (b.stop (Arena.unit A)) := Header.stop_of_lt (Nat.lt_of_le_of_lt placed.stop_le bound)
  apply Op.Yields.bind (.lift ends)
  cases high with
  | nil =>
      cases joined
      have apart : b.stop (Arena.unit A) ≠ firstAddress [] :=
        Nat.ne_of_gt (Nat.lt_of_lt_of_le (Nat.pos_of_ne_zero placed.nonzero) (Nat.le_add_right _ _))
      rw [if_neg apart]
      exact .pure _
  | cons c rest =>
      have linked := h.linked
      rw [nodes] at linked
      have found := header_of_record? slate h.keeps linked.behind.2.1
      have inside := h.node_stop_le (p := c) (nodes ▸ by simp)
      simp only [pushFront] at joined
      split at joined
      case isTrue touch =>
        rw [if_pos (show _ = firstAddress (c :: rest) from touch)]
        cases joined
        have sum : Size.add b.size c.size = .ok (b.size + c.size) := by
          apply Size.add_of_lt
          have first := size_le_stop slate.unit_pos b
          have second := Nat.le_mul_of_pos_right c.size slate.unit_pos
          rw [touch] at first
          simp only [stop] at inside
          omega
        exact .bind (.query found) (.bind (.report _) (.bind (.lift sum) (.pure _)))
      case isFalse apart =>
        rw [if_neg (show _ ≠ firstAddress (c :: rest) from apart)]
        cases joined
        exact .pure _

theorem linkBehind (slate : Arena.Slate Keeps Spot most)
    (h : pool.Strung Keeps Spot most ledger blocks)
    (nodes : sentinel :: blocks = init ++ p :: (skipped ++ high))
    (nonzero : b.address ≠ sentinelAddress) (spot : Spot b.address)
    (stop : b.stop (Arena.unit A) ≤ Size.greatest)
    (apart : ∀ c ∈ sentinel :: blocks, Beside (Arena.unit A) c.address b.address)
    (fits : ∀ c ∈ pushFront (Arena.unit A) p (b :: high), c.size ≤ most) :
    ∃ pool' ledger', (linkBehind p.address { size := p.size, next := firstAddress (skipped ++ high) }
        b.address { size := b.size, next := firstAddress high }).Yields pool (.ok ()) pool' ∧
      Keeps pool'.arena ledger' ∧
      Linked (pool'.record? ledger') (init ++ pushFront (Arena.unit A) p (b :: high)) ∧
      Ledger.Frame (Arena.unit A) (b.address :: allCells (Arena.unit A) blocks) ledger ledger' := by
  have mem : p ∈ sentinel :: blocks := nodes ▸ by simp
  have linked := h.linked
  rw [nodes] at linked
  have bound : Size.greatest < Size.bound := by decide
  have ends : ({ size := p.size, next := firstAddress (skipped ++ high) } : Header).stop p.address
      (Arena.unit A) = .ok (p.stop (Arena.unit A)) :=
    Header.stop_of_lt (Nat.lt_of_le_of_lt (h.node_stop_le mem) bound)
  have leads := h.leads (show sentinel :: blocks = (init ++ p :: skipped) ++ high by simp [nodes])
  have beside := h.beside slate nodes
  have place := h.node_spot mem
  have inside := (h.node_cell mem).imp_right (List.mem_cons_of_mem b.address)
  simp only [pushFront] at fits
  by_cases touch : p.stop (Arena.unit A) = b.address
  · rw [if_pos touch] at fits
    have sum : Size.add p.size b.size = .ok (p.size + b.size) := by
      apply Size.add_of_lt
      have first := size_le_stop slate.unit_pos p
      have second := Nat.le_mul_of_pos_right b.size slate.unit_pos
      rw [touch] at first
      simp only [FreeBlock.stop] at stop
      omega
    obtain ⟨pool', ledger', set, wrote⟩ := yields_setHeader slate h.keeps
      { size := p.size + b.size, next := firstAddress high } place leads (fits _ List.mem_cons_self)
    refine ⟨pool', ledger', ?_, wrote.keeps, ?_, wrote.frame _ inside⟩
    · apply Op.Yields.bind (.lift ends)
      rw [if_pos touch]
      exact .bind (.report _) (.bind (.lift sum) set)
    · simp only [pushFront, if_pos touch]
      refine linked.relink ?_ rfl ⟨wrote.record_self, ?_⟩
      · intro c mem
        exact wrote.record_beside _ (beside c (by simp [mem]))
      · apply linked.behind.2.behind.congr
        intro c mem
        exact wrote.record_beside _ (beside c (by simp [mem]))
  · rw [if_neg touch] at fits
    obtain ⟨stored, ledger₁, store, wrote⟩ := yields_setHeader slate h.keeps
      { size := b.size, next := firstAddress high } (.inr spot) leads (fits b (by simp))
    have frame := wrote.frame _ (.inr (List.mem_cons_self (l := allCells (Arena.unit A) blocks)))
    rw [setHeader, if_neg nonzero] at store
    obtain ⟨pool', ledger', set, wrote'⟩ := yields_setHeader slate wrote.keeps
      { size := p.size, next := b.address } place (.inr spot) (h.node_size_le mem)
    refine ⟨pool', ledger', ?_, wrote'.keeps, ?_, frame.trans (wrote'.frame _ inside)⟩
    · apply Op.Yields.bind (.lift ends)
      rw [if_neg touch]
      exact .bind store set
    · have same : ∀ c ∈ init ++ (skipped ++ high),
          pool'.record? ledger' c.address = pool.record? ledger c.address := by
        intro c mem
        have node : c ∈ sentinel :: blocks := by
          rw [nodes]
          exact List.perm_middle.symm.subset (List.mem_cons_of_mem _ mem)
        rw [wrote'.record_beside _ (beside c mem), wrote.record_beside _ (apart c node)]
      simp only [pushFront, if_neg touch]
      refine linked.relink (fun c mem => same c (by simp [mem])) rfl ⟨wrote'.record_self, ?_, ?_⟩
      · exact (wrote'.record_beside _ (apart p mem).symm).trans wrote.record_self
      · exact linked.behind.2.behind.congr fun c mem => same c (by simp [mem])

theorem insert {next : Nat} (slate : Arena.Slate Keeps Spot most)
    (h : pool.Strung Keeps Spot most ledger blocks) (separated : Separated (Arena.unit A) blocks)
    (placed : b.Placed (Arena.unit A) Spot most)
    (stored : Arena.load pool.arena b.address = .ok { size := b.size, next })
    (disjoint : ∀ c ∈ blocks, Disjoint (Arena.unit A) b c)
    (fits : ∀ c ∈ release (Arena.unit A) b blocks, c.size ≤ most) :
    ∃ pool' ledger', (insert b.address).Yields pool (.ok ()) pool' ∧
      pool'.Strung Keeps Spot most ledger' (release (Arena.unit A) b blocks) ∧
      pool'.freeList.cursor = some (below blocks b.address) ∧
      Ledger.Frame (Arena.unit A) (allCells (Arena.unit A) (b :: blocks)) ledger ledger' := by
  have positive := placed.nonzero
  have beside : ∀ c ∈ sentinel :: blocks, Beside (Arena.unit A) c.address b.address := by
    apply beside_nodes slate.unit_pos positive
    intro c mem
    exact (disjoint c mem).symm.apart (address_mem_cells (h.nonempty c mem))
      (address_mem_cells placed.nonempty)
  have apart : ∀ c ∈ blocks, c.address ≠ b.address :=
    fun c mem => (beside c (List.mem_cons_of_mem _ mem)).1
  have used := h.withCursor h.node
  have ordered := separated.nodes h.nonzero
  obtain ⟨init, p, high, nodes, slot, lows, highs⟩ := exists_slot ordered.ascending positive apart
  obtain ⟨b', skipped, high', joined, same, split⟩ := exists_pushFront (Arena.unit A) b high
  have shape : sentinel :: release (Arena.unit A) b blocks =
      init ++ pushFront (Arena.unit A) p (b' :: high') := by
    rw [← release_sentinel positive h.nonzero, nodes, ← joined]
    exact release_of_cut (nodes ▸ ordered) lows highs
  have released := placed_release (List.forall_mem_cons.2 ⟨placed, h.placed⟩) fits
  -- The walk, and what it finds.
  have listed := used.blocks_eq slate
  have slotted := (used.ring slate).slot_eq h.node positive apart (h.length_lt slate)
  have linked := used.linked
  rw [nodes] at linked
  have found := header_of_record? slate used.keeps linked.header
  rw [slot] at found
  have absorbed := used.absorbSuccessor slate next placed nodes joined
  have stop : b'.stop (Arena.unit A) ≤ Size.greatest := by
    obtain ⟨d, mem, ends⟩ := exists_stop_of_mem_pushFront (joined ▸ List.mem_cons_self)
    rw [← ends]
    rcases List.mem_cons.1 mem with rfl | above
    · exact placed.stop_le
    · exact h.node_stop_le (nodes ▸ by simp [above])
  have sizes : ∀ c ∈ pushFront (Arena.unit A) p (b' :: high'), c.size ≤ most := by
    intro c mem
    have node : c ∈ sentinel :: release (Arena.unit A) b blocks :=
      shape ▸ List.mem_append_right _ mem
    rcases List.mem_cons.1 node with rfl | inside
    · exact Nat.zero_le _
    · exact fits c inside
  subst split
  obtain ⟨pool', ledger', link, keeps, linked', frame⟩ := used.linkBehind slate nodes
    (same ▸ positive) (same ▸ placed.spot) stop (same ▸ beside) sizes
  rw [same, slot] at link
  rw [same] at frame
  have wider : b.address :: allCells (Arena.unit A) blocks ⊆ allCells (Arena.unit A) (b :: blocks) :=
    List.cons_subset.2
      ⟨List.mem_append_left _ (address_mem_cells placed.nonempty), List.subset_append_right _ _⟩
  refine ⟨pool'.withCursor (below blocks b.address), ledger', ?_,
    ⟨keeps, shape ▸ linked', ?_, released, ?_, nofun⟩, rfl, frame.mono wider⟩
  · refine .bind (.require positive) (.bind (yields_useCursor pool) (.bind (.query listed) ?_))
    refine .bind (.require apart) (.bind (.query slotted) (.bind (.query stored) ?_))
    exact .bind (.query found) (.bind absorbed (.bind link (.update _)))
  · have nonempty : ∀ c ∈ b :: blocks, 0 < c.size :=
      List.forall_mem_cons.2 ⟨placed.nonempty, h.nonempty⟩
    exact (separated_release slate.unit_pos nonempty separated disjoint).ordered
  · show IsNode _ (below blocks b.address)
    rw [← slot]
    exact isNode_of_pushFront shape

end Strung

theorem Holds.insert {next : Nat} (laws : Arena.Laws Keeps) (h : pool.Holds Keeps ledger blocks)
    (nonempty : 0 < b.size) (header : ledger.header? b.address = some { size := b.size, next })
    (owned : b.cells (Arena.unit A) ⊆ ledger.cells (Arena.unit A))
    (disjoint : ∀ c ∈ blocks, Disjoint (Arena.unit A) b c) :
    ∃ pool' ledger', (insert b.address).Yields pool (.ok ()) pool' ∧
      pool'.Holds Keeps ledger' (release (Arena.unit A) b blocks) ∧
      pool'.freeList.cursor = some (below blocks b.address) ∧
      Ledger.Frame (Arena.unit A) (allCells (Arena.unit A) (b :: blocks)) ledger ledger' := by
  have room := h.room laws nonempty owned disjoint
  have fits : ∀ c ∈ release (Arena.unit A) b blocks, c.size ≤ ledger.units (Arena.unit A) := by
    intro c mem
    have part := size_le_units mem
    rw [units_release] at part
    exact Nat.le_trans part room
  obtain ⟨pool', ledger', inserted, strung, cursor, frame⟩ :=
    (h.strung laws).insert (laws.slate h.wellFormed) h.separated
      (h.wellFormed.placed laws.unit_pos nonempty owned) (laws.load h.keeps header) disjoint fits
  refine ⟨pool', ledger', inserted, ?_, cursor, frame⟩
  have nonempty' : ∀ c ∈ b :: blocks, 0 < c.size := List.forall_mem_cons.2 ⟨nonempty, h.nonempty⟩
  exact strung.holds h.wellFormed (separated_release laws.unit_pos nonempty' h.separated disjoint)
    (List.Subset.trans (tile_release _ b blocks).subset (List.append_subset.2 ⟨owned, h.owned⟩))

end Pool

end NextFit
