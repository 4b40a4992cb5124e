import NextFit.Proofs.Arena.Slate
import NextFit.Proofs.Pool.Take

/-! # No loop goes round for ever

The loops over a free list count nothing, so what ends them is the order of the addresses alone. For
that the sizes do not matter: blocks may overlap, as they do once a heap has been misused, and reach
beyond the arena. Wherever the cursor stands, the walk to a slot ends within a lap, at the greatest node
below the block. A search ends within a lap too, and only what it has found is taken; if no node has
enough units, it has looked at each of them once. A list of the blocks ends at the sentinel. Nodes have
addresses, so the steps that a loop may take here are enough.
-/

namespace NextFit.Pool

open FreeBlock

variable {A : Type} [Arena A] {pool : Pool A} {blocks : List FreeBlock}

theorem length_le_of_nodup {numbers : List Nat} {bound : Nat} (distinct : numbers.Nodup)
    (below : ∀ n ∈ numbers, n < bound) : numbers.length ≤ bound := by
  have inside : numbers ⊆ List.range bound := fun n mem => List.mem_range.2 (below n mem)
  rw [← @List.length_range bound]
  exact (distinct.subperm inside).length_le

/-- There are fewer blocks than addresses. -/
theorem length_lt_of_addresses (distinct : (nodes blocks).Nodup)
    (addresses : ∀ b ∈ blocks, b.address < Size.bound) : blocks.length < Size.bound := by
  rw [← Nat.succ_le_iff, Nat.succ_eq_add_one, ← length_nodes]
  apply length_le_of_nodup distinct
  intro n mem
  rcases mem_nodes_iff.1 mem with rfl | ⟨b, inside, rfl⟩
  · decide
  · exact addresses b inside

/-- Where an insertion succeeds, the next search starts at the slot. -/
theorem cursor_of_insert {pool' : Pool A} {block : Nat}
    (inserted : (insert block).Yields pool (.ok ()) pool') :
    ∃ slot, pool.slot block pool.start = .ok slot ∧
      pool'.freeList.cursor = some slot := by
  obtain ⟨_, _, checked, h⟩ := inserted.exists_of_bind
  obtain ⟨-, rfl⟩ := checked.of_require
  obtain ⟨start, _, used, h⟩ := h.exists_of_bind
  obtain ⟨⟨⟩, rfl⟩ := used.unique (yields_useCursor _)
  obtain ⟨listed, _, queried, h⟩ := h.exists_of_bind
  obtain ⟨-, rfl⟩ := queried.of_query
  obtain ⟨_, _, checked, h⟩ := h.exists_of_bind
  obtain ⟨-, rfl⟩ := checked.of_require
  obtain ⟨slot, _, queried, h⟩ := h.exists_of_bind
  obtain ⟨found, rfl⟩ := queried.of_query
  rw [slot_withCursor] at found
  refine ⟨slot, found, ?_⟩
  -- Whatever the links become, the last step sets the cursor.
  obtain ⟨released, _, -, h⟩ := h.exists_of_bind
  obtain ⟨previous, _, -, h⟩ := h.exists_of_bind
  obtain ⟨joined, _, -, h⟩ := h.exists_of_bind
  obtain ⟨_, last, -, h⟩ := h.exists_of_bind
  exact (h.unique (.update _)).2 ▸ rfl

/-- The loops end on every chain of links with rising addresses. -/
theorem loops_end_within_lap (links : pool.Links pool.freeList.sentinel.next blocks)
    (ascending : Ascending blocks) (addresses : ∀ b ∈ blocks, b.address < Size.bound)
    (node : IsNode blocks pool.start) :
    (nodes blocks).Nodup ∧
    (∀ block, ¬ IsNode blocks block →
      ∃ passed slot later, (passed ++ slot :: later).IsRotated (nodes blocks) ∧
        pool.Walk (SlotFor block) pool.start passed slot ∧
        IsGreatest { n | IsNode blocks n ∧ n < block } slot ∧
        (∀ steps, pool.slotFrom block steps pool.start =
          if passed.length < steps then .ok slot else .error .endlessList) ∧
        pool.slot block pool.start = .ok slot ∧
        ∀ pool', (insert block).Yields pool (.ok ()) pool' → pool'.freeList.cursor = some slot) ∧
    (∀ units, 1 ≤ units → ∃ first passed last later header found,
      pool.header pool.start = .ok first ∧ pool.header last = .ok header ∧
      (passed ++ last :: later).IsRotated (nodes blocks) ∧
      pool.Walk (EndsSearch units pool.start) first.next passed last ∧
      found = foundAt units (passed.getLastD pool.start) last header ∧
      (∀ steps, pool.searchFrom units pool.start steps pool.start first.next =
        if passed.length < steps then .ok found else .error .endlessList) ∧
      pool.search units pool.start = .ok found ∧
      -- What becomes of taking the units is what the search has found.
      (found = none → (take units).Yields pool (.ok none) (pool.withCursor pool.start)) ∧
      (∀ result pool', (take units).Yields pool (.ok result) pool' →
        result = found.map (fun fit => fit.block + (fit.header.size - units) * Arena.unit A) ∧
        pool'.freeList.cursor = some ((found.map (·.before)).getD pool.start)) ∧
      -- With fewer units in every node, it has been at each of them, and back at the start.
      (pool.freeList.sentinel.size < units → (∀ b ∈ blocks, b.size < units) →
        last = pool.start ∧ later = [] ∧ found = none)) ∧
    (pool.freeList.cursor ≠ none →
      pool.Walk AtSentinel pool.freeList.sentinel.next (blocks.map (·.address)) sentinelAddress ∧
      (∀ steps, pool.blocksFrom steps pool.freeList.sentinel.next =
        if blocks.length < steps then .ok blocks else .error .endlessList) ∧
      pool.blocks = .ok blocks) := by
  have distinct := ascending.nodup_nodes links.ne_sentinel
  have fewer := length_lt_of_addresses distinct addresses
  refine ⟨distinct, ?_, ?_, ?_⟩
  · intro block other
    obtain ⟨passed, later, lap, walk⟩ := exists_slot_walk links ascending node other
    have ends := slot_eq_below links ascending node other fewer
    refine ⟨passed, _, later, lap, walk, isGreatest_below ascending other, slotFrom_of_walk walk,
      ends, ?_⟩
    intro pool' inserted
    obtain ⟨slot, found, cursor⟩ := cursor_of_insert inserted
    cases found.symm.trans ends
    exact cursor
  · intro units positive
    obtain ⟨first, rest, passed, last, later, header, leads, lap, split, walk, stands, stops⟩ :=
      exists_search_walk units links ascending node
    have searched := search_of_walk leads walk stands
      (Nat.lt_of_le_of_lt (length_le_of_split lap split) fewer)
    have around : (passed ++ last :: later).IsRotated (nodes blocks) :=
      split ▸ (List.isRotated_concat _ _).trans lap
    refine ⟨first, passed, last, later, header, _, leads, stands, around, walk, rfl,
      fun steps => searchFrom_of_walk walk stands steps _, searched, ?_, ?_, ?_⟩
    · intro nothing
      exact yields_take_none positive (searched.trans (congrArg _ nothing))
    · intro result pool' taken
      obtain ⟨found, known, outcome⟩ := search_of_take taken
      obtain rfl := Except.ok.inj (known.symm.trans searched)
      exact outcome
    · intro empty small
      obtain ⟨rfl, rfl⟩ := search_walk_whole links ascending lap split stands stops empty small
      exact ⟨rfl, rfl, if_neg (Nat.not_le_of_lt (header_size_lt links node stands empty small))⟩
  · intro initialised
    obtain ⟨cursor, known⟩ := Option.ne_none_iff_exists'.1 initialised
    refine ⟨links.walk, blocksFrom_eq_of_links links, ?_⟩
    simp only [Pool.blocks, known]
    exact blocksFrom_of_links links fewer

/-- The headers of three blocks of which each reaches over the next one, and the last one beyond the
    arena. -/
def layOverlapping : Op Segment Unit := do
  let first ← Segment.extend 64
  Segment.store first { size := 9, next := first + 16 }
  Segment.store (first + 16) { size := 4, next := first + 40 }
  Segment.store (first + 40) { size := 7, next := sentinelAddress }

/-- A pool of these blocks with the cursor on the second. -/
def overlapping : Pool Segment where
  arena := (layOverlapping Segment.default).state
  freeList := { sentinel := { size := 0, next := 0x10040000 }, cursor := some 0x10040010 }

/-- An address below all blocks is searched for around the end of the ring. -/
theorem loops_end_within_lap_overlapping :
    overlapping.slot 8 0x10040010 = .ok sentinelAddress ∧
      (take 10).Yields overlapping (.ok none) overlapping ∧
      overlapping.blocks = .ok [⟨0x10040000, 9⟩, ⟨0x10040010, 4⟩, ⟨0x10040028, 7⟩] := by
  have links : overlapping.Links overlapping.freeList.sentinel.next
      [⟨0x10040000, 9⟩, ⟨0x10040010, 4⟩, ⟨0x10040028, 7⟩] :=
    links_of_blocksFrom (show overlapping.blocksFrom 4 _ = .ok _ by decide)
  obtain ⟨-, slots, searches, lists⟩ := loops_end_within_lap links (by decide) (by decide)
    (.inr ⟨⟨0x10040010, 4⟩, by decide, rfl⟩)
  obtain ⟨-, slot, -, -, -, greatest, -, found, -⟩ := slots 8 (by simp [IsNode, sentinelAddress])
  obtain ⟨_, _, _, _, _, _, -, -, -, -, -, -, -, fails, -, whole⟩ := searches 10 (by decide)
  obtain ⟨-, -, nothing⟩ := whole (by decide) (by decide)
  have taken := fails nothing
  rw [withCursor_start (show overlapping.freeList.cursor = some 0x10040010 from rfl)] at taken
  obtain ⟨-, -, listed⟩ := lists (by decide)
  have lowest : slot = sentinelAddress := by
    obtain ⟨⟨rfl | ⟨b, mem, rfl⟩, lower⟩, -⟩ := greatest
    · rfl
    · simp only [List.mem_cons, List.not_mem_nil, or_false] at mem
      rcases mem with rfl | rfl | rfl <;> simp at lower
  exact ⟨lowest ▸ found, taken, listed⟩

end NextFit.Pool
