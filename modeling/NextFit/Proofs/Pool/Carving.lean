import NextFit.Proofs.Arena.Slate
import NextFit.Proofs.Pool.Take

/-! # What a search takes

A search looks at the free blocks in the order of a lap behind the cursor, to which the node at the
cursor belongs as the last one. The first block with enough units serves it: all of the block if these
are all units it has, and its tail otherwise. Nothing else on the list changes, and the next search
starts behind the node in front of that block. The blocks of the list may touch here.
-/

namespace NextFit

namespace FreeBlock

variable {units cursor : Nat} {b : FreeBlock} {blocks passed later : List FreeBlock}

theorem nextFit?_of_lap (order : lap cursor blocks = passed ++ b :: later)
    (short : ∀ c ∈ passed, c.size < units) (fits : units ≤ b.size) :
    nextFit? units cursor blocks = some b := by
  rw [nextFit?, order, List.find?_append, List.find?_eq_none.2 (by simpa using short),
    Option.none_or, List.find?_cons_of_pos (by simpa using fits)]

end FreeBlock

namespace Pool

open FreeBlock

variable {A : Type} [Arena A] {Keeps : A → Ledger → Prop} {Spot : Nat → Prop} {most : Nat}
  {pool : Pool A} {ledger : Ledger} {blocks : List FreeBlock} {units : Nat}

/-- The first block on the lap that has enough units gives up just these, the last ones it has. -/
theorem take_first_fit_on_lap (slate : Arena.Slate Keeps Spot most)
    (strung : pool.Strung Keeps Spot most ledger blocks)
    (inside : ∀ x ∈ allCells (Arena.unit A) blocks, Spot x) (positive : 0 < units) :
    pool.blocks = .ok blocks ∧
    ((∀ b ∈ blocks, b.size < units) →
      (take units).Yields pool (.ok none) (pool.withCursor pool.start) ∧
      (pool.withCursor pool.start).Lists Keeps Spot most blocks pool.start) ∧
    ∀ low b high passed later, blocks = low ++ b :: high →
      lap pool.start blocks = passed ++ b :: later → (∀ c ∈ passed, c.size < units) →
      (b.size = units → ∃ pool', (take units).Yields pool (.ok (some b.address)) pool' ∧
        pool'.Lists Keeps Spot most (low ++ high) (lastFrom sentinelAddress low)) ∧
      (units < b.size → ∃ pool' next,
        (take units).Yields pool (.ok (some (b.address + (b.size - units) * Arena.unit A))) pool' ∧
        Arena.load pool'.arena (b.address + (b.size - units) * Arena.unit A) =
          .ok { size := units, next } ∧
        pool'.Lists Keeps Spot most (low ++ { b with size := b.size - units } :: high)
          (lastFrom sentinelAddress low)) := by
  refine ⟨strung.blocks_eq slate, ?_, ?_⟩
  · intro short
    refine ⟨strung.take_none slate positive (nextFit?_eq_none_iff.2 short), ?_⟩
    exact (strung.withCursor strung.node).lists slate rfl
  · intro low b high passed later split order short
    subst split
    have ascending := strung.ascending slate
    have spot (fits : units ≤ b.size) : Spot (b.tail (Arena.unit A) units).address :=
      inside _ (mem_allCells.2 ⟨b, by simp, mem_cells.2 ⟨b.size - units, by omega, rfl⟩⟩)
    constructor
    · rintro rfl
      have fits := Nat.le_refl b.size
      obtain ⟨pool', ledger', taken, strung', cursor, -, -⟩ :=
        strung.take_some slate positive (nextFit?_of_lap order short fits) (spot fits)
      have whole : (b.tail (Arena.unit A) b.size).address = b.address := by simp [tail]
      rw [whole] at taken
      rw [carve_whole ascending fits] at strung'
      rw [below_at ascending] at cursor
      exact ⟨pool', taken, strung'.lists slate cursor⟩
    · intro more
      have fits := Nat.le_of_lt more
      obtain ⟨pool', ledger', taken, strung', cursor, -, next, header⟩ :=
        strung.take_some slate positive (nextFit?_of_lap order short fits) (spot fits)
      rw [carve_tail ascending more] at strung'
      rw [below_at ascending] at cursor
      exact ⟨pool', next, taken, slate.load strung'.keeps header, strung'.lists slate cursor⟩

/-- The headers of two blocks that touch and of a third one on new memory. -/
def layTouching : Op Segment Unit := do
  let first ← Segment.extend 72
  Segment.store first { size := 4, next := first + 32 }
  Segment.store (first + 32) { size := 2, next := first + 56 }
  Segment.store (first + 56) { size := 2, next := sentinelAddress }

/-- A pool of these blocks with the cursor on the second. -/
def touching : Pool Segment where
  arena := (layTouching Segment.default).state
  freeList := { sentinel := { size := 0, next := 0x10040000 }, cursor := some 0x10040020 }

/-- The third block is passed, and so is the sentinel. -/
theorem take_first_fit_on_lap_wrapped :
    lap touching.start [⟨0x10040000, 4⟩, ⟨0x10040020, 2⟩, ⟨0x10040038, 2⟩] =
        [⟨0x10040038, 2⟩, ⟨0x10040000, 4⟩, ⟨0x10040020, 2⟩] ∧
      ∃ pool' next, (take 3).Yields touching (.ok (some 0x10040008)) pool' ∧
        Arena.load pool'.arena 0x10040008 = .ok { size := 3, next } ∧
        pool'.blocks = .ok [⟨0x10040000, 1⟩, ⟨0x10040020, 2⟩, ⟨0x10040038, 2⟩] ∧
        pool'.freeList.cursor = some sentinelAddress := by
  have order : lap touching.start [⟨0x10040000, 4⟩, ⟨0x10040020, 2⟩, ⟨0x10040038, 2⟩] =
      [⟨0x10040038, 2⟩, ⟨0x10040000, 4⟩, ⟨0x10040020, 2⟩] := by decide
  have strung : touching.Strung _ _ _ _ [⟨0x10040000, 4⟩, ⟨0x10040020, 2⟩, ⟨0x10040038, 2⟩] :=
    Segment.strung_of_blocks (by decide) (by decide) (by decide) (by decide) (by decide)
      (.inr ⟨⟨0x10040020, 2⟩, by decide⟩)
  obtain ⟨-, -, served⟩ := take_first_fit_on_lap (Segment.slate touching.arena) strung (by decide)
    (show 0 < 3 by decide)
  obtain ⟨-, cut⟩ := served [] ⟨0x10040000, 4⟩ _ [⟨0x10040038, 2⟩] _ rfl order (by decide)
  obtain ⟨pool', next, taken, header, lists⟩ := cut (by decide)
  exact ⟨order, pool', next, taken, header, lists.blocks, lists.cursor⟩

end Pool

end NextFit
