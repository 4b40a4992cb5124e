import NextFit.Proofs.Arena.Slate
import NextFit.Proofs.Pool.Insert

/-! # What an insertion joins

A released block goes between the free blocks below it and those above it. `Coalesced` tells the four
ways in which it may find its neighbours. Which of them applies, and the list that comes of it, is
settled by the blocks alone, before the pool is looked at: neither the cursor nor the link in the old
header of the block has a say.
-/

namespace NextFit

namespace FreeBlock

/-- A block between lower and higher ones has become one with those neighbours that it touches. -/
inductive Coalesced (unit : Nat) : (low : List FreeBlock) → (b : FreeBlock) →
    (high joined : List FreeBlock) → Prop where
  /-- The block stays on its own. -/
  | alone {low high : List FreeBlock} {b : FreeBlock} :
      (∀ p ∈ low.getLast?, p.stop unit ≠ b.address) →
      (∀ c ∈ high.head?, b.stop unit ≠ c.address) →
      Coalesced unit low b high (low ++ b :: high)
  /-- The block takes in the one above it. -/
  | successor {low high : List FreeBlock} {b c : FreeBlock} :
      (∀ p ∈ low.getLast?, p.stop unit ≠ b.address) →
      b.stop unit = c.address →
      Coalesced unit low b (c :: high) (low ++ { b with size := b.size + c.size } :: high)
  /-- The block is taken in by the one below it. -/
  | predecessor {low high : List FreeBlock} {p b : FreeBlock} :
      p.stop unit = b.address →
      (∀ c ∈ high.head?, b.stop unit ≠ c.address) →
      Coalesced unit (low ++ [p]) b high (low ++ { p with size := p.size + b.size } :: high)
  /-- The block closes the gap between the two. -/
  | both {low high : List FreeBlock} {p b c : FreeBlock} :
      p.stop unit = b.address →
      b.stop unit = c.address →
      Coalesced unit (low ++ [p]) b (c :: high)
        (low ++ { p with size := p.size + (b.size + c.size) } :: high)

variable {unit : Nat} {p b : FreeBlock} {blocks low high : List FreeBlock}

theorem pushFront_eq_or (unit : Nat) (b : FreeBlock) (high : List FreeBlock) :
    ((∀ c ∈ high.head?, b.stop unit ≠ c.address) ∧ pushFront unit b high = b :: high) ∨
      ∃ c rest, high = c :: rest ∧ b.stop unit = c.address ∧
        pushFront unit b high = { b with size := b.size + c.size } :: rest := by
  cases high with
  | nil => exact .inl ⟨by simp, rfl⟩
  | cons c rest =>
      by_cases touch : b.stop unit = c.address
      · exact .inr ⟨c, rest, rfl, touch, if_pos touch⟩
      · exact .inl ⟨by simpa using touch, if_neg touch⟩

/-- Releasing a block is coalescing it at its place. -/
theorem coalesced_release (separated : Separated unit (low ++ high))
    (lows : ∀ c ∈ low, c.address < b.address) (highs : ∀ c ∈ high, b.address < c.address) :
    Coalesced unit low b high (release unit b (low ++ high)) := by
  rcases List.eq_nil_or_concat low with rfl | ⟨init, p, rfl⟩
  · rw [List.nil_append, release_of_lt highs]
    rcases pushFront_eq_or unit b high with ⟨apart, eq⟩ | ⟨c, rest, rfl, touch, eq⟩
    · rw [eq]
      exact .alone (by simp) apart
    · rw [eq]
      exact .successor (by simp) touch
  · rw [List.concat_eq_append] at *
    have last : (∀ q ∈ (init ++ [p]).getLast?, q.stop unit ≠ b.address) ↔
        p.stop unit ≠ b.address := by simp
    have cut := release_of_cut (List.append_assoc init [p] high ▸ separated) lows highs
    rw [List.append_assoc, List.singleton_append, cut]
    rcases pushFront_eq_or unit b high with ⟨apart, eq⟩ | ⟨c, rest, rfl, touch, eq⟩
    · rw [eq, pushFront]
      split
      case isTrue below => exact .predecessor below apart
      case isFalse below =>
        rw [List.append_cons init p (b :: high)]
        exact .alone (last.2 below) apart
    · rw [eq, pushFront]
      split
      case isTrue below => exact .both below touch
      case isFalse below =>
        rw [List.append_cons init p ({ b with size := b.size + c.size } :: rest)]
        exact .successor (last.2 below) touch

end FreeBlock

namespace Pool

open FreeBlock

variable {A : Type} [Arena A] {Keeps : A → Ledger → Prop} {Spot : Nat → Prop} {most : Nat}
  {blocks : List FreeBlock} {b : FreeBlock}

/-- A block that shares no byte with the list joins it in address order, as one with the blocks that
    it touches, wherever the cursor is. -/
theorem insert_coalesces (slate : Arena.Slate Keeps Spot most)
    (separated : Separated (Arena.unit A) blocks)
    (placed : ∀ c ∈ b :: blocks, c.Placed (Arena.unit A) Spot most)
    (disjoint : ∀ c ∈ blocks, Disjoint (Arena.unit A) b c)
    (fits : ∀ c ∈ release (Arena.unit A) b blocks, c.size ≤ most) :
    blocks.filter (·.address < b.address) ++ blocks.filter (b.address < ·.address) = blocks ∧
    Coalesced (Arena.unit A) (blocks.filter (·.address < b.address)) b
      (blocks.filter (b.address < ·.address)) (release (Arena.unit A) b blocks) ∧
    Separated (Arena.unit A) (release (Arena.unit A) b blocks) ∧
    ∀ (pool : Pool A) ledger next, pool.Strung Keeps Spot most ledger blocks →
      Arena.load pool.arena b.address = .ok { size := b.size, next } →
      pool.blocks = .ok blocks ∧ ∃ pool', (insert b.address).Yields pool (.ok ()) pool' ∧
        pool'.Lists Keeps Spot most (release (Arena.unit A) b blocks) (below blocks b.address) ∧
        pool'.freeList.sentinel.size = 0 := by
  obtain ⟨own, others⟩ := List.forall_mem_cons.1 placed
  have nonempty : ∀ c ∈ b :: blocks, 0 < c.size := fun c mem => (placed c mem).nonempty
  have apart : ∀ c ∈ blocks, c.address ≠ b.address := fun c mem =>
    (disjoint c mem).symm.address_ne slate.unit_pos (others c mem).nonempty own.nonempty
  obtain ⟨low, high, split, lows, highs⟩ := separated.ascending.exists_cut apart
  have lower : blocks.filter (·.address < b.address) = low :=
    split ▸ filter_lt_of_cut lows fun c mem => Nat.le_of_lt (highs c mem)
  have higher : blocks.filter (b.address < ·.address) = high :=
    split ▸ filter_gt_of_cut (fun c mem => Nat.le_of_lt (lows c mem)) highs
  rw [lower, higher]
  refine ⟨split.symm, ?_, separated_release slate.unit_pos nonempty separated disjoint, ?_⟩
  · subst split
    exact coalesced_release separated lows highs
  · intro pool ledger next strung stored
    obtain ⟨pool', ledger', inserted, strung', cursor, -⟩ :=
      strung.insert slate separated own stored disjoint fits
    refine ⟨strung.blocks_eq slate, pool', inserted, strung'.lists slate cursor, ?_⟩
    rw [strung'.sentinel_eq]

/-- The headers of two blocks and of a third one that fills the gap between them. -/
def layGapped : Op Segment Unit := do
  let first ← Segment.extend 56
  Segment.store first { size := 2, next := first + 40 }
  Segment.store (first + 16) { size := 3, next := first + 8 }
  Segment.store (first + 40) { size := 2, next := sentinelAddress }

/-- A pool of the two blocks with the cursor on the second. -/
def gapped : Pool Segment where
  arena := (layGapped Segment.default).state
  freeList := { sentinel := { size := 0, next := 0x10040000 }, cursor := some 0x10040028 }

/-- The walk comes round to the first block, and the three become one. -/
theorem insert_coalesces_three :
    gapped.blocks = .ok [⟨0x10040000, 2⟩, ⟨0x10040028, 2⟩] ∧
      ∃ pool', (insert 0x10040010).Yields gapped (.ok ()) pool' ∧
        pool'.blocks = .ok [⟨0x10040000, 7⟩] ∧ pool'.freeList.cursor = some 0x10040000 := by
  have strung : gapped.Strung _ _ _ _ [⟨0x10040000, 2⟩, ⟨0x10040028, 2⟩] :=
    Segment.strung_of_blocks (by decide) (by decide) (by decide) (by decide) (by decide)
      (.inr ⟨⟨0x10040028, 2⟩, by decide⟩)
  have placed : ∀ c ∈ FreeBlock.mk 0x10040010 3 :: [⟨0x10040000, 2⟩, ⟨0x10040028, 2⟩],
      c.Placed Segment.unit gapped.arena.Spot (Segment.wordBound - 1) := by decide
  obtain ⟨-, -, -, inserts⟩ := insert_coalesces (Segment.slate gapped.arena)
    (by decide) placed (by decide) (by decide)
  obtain ⟨listed, pool', inserted, lists, -⟩ :=
    inserts gapped _ 0x10040008 strung (by decide)
  exact ⟨listed, pool', inserted, lists.blocks, lists.cursor⟩

end Pool

end NextFit
