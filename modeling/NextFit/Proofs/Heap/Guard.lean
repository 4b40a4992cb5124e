import NextFit.Arena.Segment
import NextFit.Heap.Basic
import NextFit.Proofs.Pool.Strung

/-! # The guards of a deallocation

A heap takes a block back only if its arena says that the header lies in memory that was handed out,
and if no free block starts where the block does. Nothing behind these guards ends with the same
faults, so a fault tells which guard has failed: what the arena says decides which addresses are turned
down as foreign, and the list of the free blocks decides what counts as a double free.
-/

namespace NextFit

theorem Pool.avoids_useCursor {A : Type} {failure : Failure} :
    (useCursor : Op (Pool A) Nat).Avoids failure := by
  apply Op.Avoids.bind .state
  intro pool
  split
  · exact .pure _
  · exact .bind (.report _) fun _ => .bind (.update _) fun _ => .pure _

/-- Headers in arenas of this kind are read and written without ending with the failure. -/
structure Arena.Avoids (A : Type) [Arena A] (failure : Failure) : Prop where
  load : ∀ (arena : A) address, failure.NotBy (Arena.load arena address)
  store : ∀ address header, (Arena.store address header : Op A Unit).Avoids failure

/-- The failures that guards and arenas have to themselves: no work on a free list ends with them. -/
inductive Failure.Reserved : Failure → Prop where
  | below : Reserved (.faulted (.overflow .subtraction))
  | foreign (address : Nat) : Reserved (.faulted (.foreignAddress address))
  | doubleFree (block : Nat) : Reserved (.faulted (.doubleFree block))
  | refused (reason : Refusal) : Reserved (.refused reason)

variable {A : Type} [Arena A] {failure : Failure}

theorem Size.notBy_add (reserved : failure.Reserved) (a b : Nat) : failure.NotBy (Size.add a b) := by
  unfold Size.add
  split
  · exact .ok _
  · exact .error (by cases reserved <;> nofun)

theorem Header.notBy_stop (reserved : failure.Reserved) (header : Header) (address unit : Nat) :
    failure.NotBy (header.stop address unit) := by
  refine .bind ?_ fun bytes => Size.notBy_add reserved _ _
  unfold Size.mul
  split
  · exact .ok _
  · exact .error (by cases reserved <;> nofun)

theorem Failure.Reserved.notBy_endless {α : Type} (reserved : failure.Reserved) :
    failure.NotBy (throw .endlessList : Except Fault α) :=
  .error (by cases reserved <;> nofun)

namespace Pool

variable (reserved : failure.Reserved) (avoids : Arena.Avoids A failure)

section Reading

include avoids

theorem notBy_header (pool : Pool A) (address : Nat) : failure.NotBy (pool.header address) := by
  unfold header
  split
  · exact .ok _
  · exact avoids.load _ _

include reserved

theorem notBy_blocksFrom (pool : Pool A) (steps current : Nat) :
    failure.NotBy (pool.blocksFrom steps current) := by
  induction steps generalizing current with
  | zero => exact reserved.notBy_endless
  | succ steps ih =>
      unfold blocksFrom
      split
      · exact .ok _
      · apply Failure.NotBy.bind (notBy_header avoids pool current)
        intro header
        exact .bind (ih header.next) fun rest => .ok _

theorem notBy_blocks (pool : Pool A) : failure.NotBy pool.blocks := by
  unfold blocks
  split
  · exact .ok _
  · exact notBy_blocksFrom reserved avoids pool _ _

theorem notBy_slotFrom (pool : Pool A) (block steps before : Nat) :
    failure.NotBy (pool.slotFrom block steps before) := by
  induction steps generalizing before with
  | zero => exact reserved.notBy_endless
  | succ steps ih =>
      apply Failure.NotBy.bind (notBy_header avoids pool before)
      intro header
      split
      · exact .ok _
      · exact ih header.next

end Reading

include avoids

theorem avoids_setHeader (address : Nat) (header : Header) :
    (setHeader address header : Op (Pool A) Unit).Avoids failure := by
  unfold setHeader
  split
  · exact .update _
  · exact .on (avoids.store address header)

include reserved

theorem avoids_absorbSuccessor (block : Nat) (released : Header) (next : Nat) :
    (absorbSuccessor block released next : Op (Pool A) Header).Avoids failure := by
  apply Op.Avoids.bind (.lift (Header.notBy_stop reserved _ _ _))
  intro stop
  split
  · apply Op.Avoids.bind (.query fun pool => notBy_header avoids pool next)
    intro successor
    apply Op.Avoids.bind (.report _)
    intro _
    exact .bind (.lift (Size.notBy_add reserved _ _)) fun size => .pure _
  · exact .pure _

theorem avoids_linkBehind (before : Nat) (previous : Header) (block : Nat) (released : Header) :
    (linkBehind before previous block released : Op (Pool A) Unit).Avoids failure := by
  apply Op.Avoids.bind (.lift (Header.notBy_stop reserved _ _ _))
  intro stop
  split
  · apply Op.Avoids.bind (.report _)
    intro _
    exact .bind (.lift (Size.notBy_add reserved _ _)) fun size => avoids_setHeader avoids _ _
  · exact .bind (.on (avoids.store block released)) fun _ => avoids_setHeader avoids _ _

/-- What an insertion does behind its guards. -/
theorem avoids_link (block start : Nat) : Op.Avoids failure (do
    let before ← Op.query (·.slot block start)
    let released ← Op.query fun pool : Pool A => Arena.load pool.arena block
    let previous ← Op.query (·.header before)
    let joined ← absorbSuccessor block released previous.next
    linkBehind before previous block joined
    setCursor before) := by
  refine .bind (.query fun pool => notBy_slotFrom reserved avoids pool block _ start) fun before => ?_
  refine .bind (.query fun pool => avoids.load pool.arena block) fun released => ?_
  refine .bind (.query fun pool => notBy_header avoids pool before) fun previous => ?_
  refine .bind (avoids_absorbSuccessor reserved avoids block released previous.next) fun joined => ?_
  exact .bind (avoids_linkBehind reserved avoids before previous block joined) fun _ => .update _

/-- An insertion only ends with a guard's fault that is its own. -/
theorem avoids_insert {block : Nat} (other : failure ≠ .faulted (.doubleFree block)) :
    (insert block : Op (Pool A) Unit).Avoids failure := by
  refine .bind (.require (by cases reserved <;> nofun)) fun _ => ?_
  refine .bind avoids_useCursor fun start => ?_
  refine .bind (.query (notBy_blocks reserved avoids)) fun nodes => ?_
  exact .bind (.require other) fun _ => avoids_link reserved avoids block start

omit reserved avoids

/-- A block is turned down as free already exactly if a free block starts where it does. -/
theorem insert_doubleFree_iff {pool : Pool A} {blocks : List FreeBlock} {block : Nat}
    (avoids : Arena.Avoids A (.faulted (.doubleFree block))) (nonzero : block ≠ sentinelAddress)
    (listed : (pool.withCursor pool.start).blocks = .ok blocks) :
    ((insert block pool).result = .error (.faulted (.doubleFree block)) ↔
        ∃ b ∈ blocks, b.address = block) ∧
      ((∃ b ∈ blocks, b.address = block) → (insert block pool).state = pool.withCursor pool.start) := by
  by_cases free : ∃ b ∈ blocks, b.address = block
  case pos =>
    have caught : (insert block).Yields pool (.error (.faulted (.doubleFree block)))
        (pool.withCursor pool.start) := by
      refine .bind (.require nonzero) (.bind (yields_useCursor pool) (.bind (.query listed) ?_))
      exact .bind_error (.require_not (by simpa using free))
    exact ⟨⟨fun _ => free, fun _ => caught.1⟩, fun _ => caught.2⟩
  case neg =>
    have passed : (insert block).Yields pool _ _ :=
      .bind (.require nonzero) (.bind (yields_useCursor pool) (.bind (.query listed)
        (.bind (.require (by simpa using free)) (Op.yields_run _ _))))
    refine ⟨⟨fun failed => ?_, fun found => absurd found free⟩, fun found => absurd found free⟩
    exact absurd (passed.1.symm.trans failed)
      (avoids_link (.doubleFree block) avoids block pool.start _)

end Pool

namespace Heap

/-- A deallocation whose address the arena knows is an insertion. -/
theorem deallocate_of_known {heap : Heap A} {address : Nat} (above : Arena.unit A ≤ address)
    (known : Arena.contains heap.arena (address - Arena.unit A) (Arena.unit A) = true) :
    (deallocate address).Yields heap
      (Pool.insert (address - Arena.unit A) heap.pool).result
      { heap with pool := (Pool.insert (address - Arena.unit A) heap.pool).state } :=
  .bind (.lift (Size.sub_of_le above)) (.bind .state (.bind (.require known) (.bind (.report _)
    (.on (Op.yields_run _ _)))))

/-- A deallocation stops at one of the two guards of the heap, or is an insertion. -/
theorem deallocate_cases (heap : Heap A) (address : Nat) :
    (address < Arena.unit A ∧
      (deallocate address).Yields heap (.error (.faulted (.overflow .subtraction))) heap) ∨
    (Arena.unit A ≤ address ∧
      Arena.contains heap.arena (address - Arena.unit A) (Arena.unit A) = false ∧
      (deallocate address).Yields heap (.error (.faulted (.foreignAddress address))) heap) ∨
    (Arena.unit A ≤ address ∧
      Arena.contains heap.arena (address - Arena.unit A) (Arena.unit A) = true ∧
      (deallocate address).Yields heap
        (Pool.insert (address - Arena.unit A) heap.pool).result
        { heap with pool := (Pool.insert (address - Arena.unit A) heap.pool).state }) := by
  by_cases above : Arena.unit A ≤ address
  case neg =>
    refine .inl ⟨Nat.not_le.1 above, ?_⟩
    apply Op.Yields.bind_error
    rw [Size.sub, if_neg above]
    exact ⟨rfl, rfl⟩
  case pos =>
    cases known : Arena.contains heap.arena (address - Arena.unit A) (Arena.unit A) with
    | false =>
        refine .inr (.inl ⟨above, rfl, .bind (.lift (Size.sub_of_le above)) (.bind .state ?_)⟩)
        exact .bind_error (.require_not (by simp [known]))
    | true => exact .inr (.inr ⟨above, rfl, deallocate_of_known above known⟩)

/-- An address is turned down exactly if the arena does not know its header. -/
theorem deallocate_foreign_iff {heap : Heap A} {address : Nat}
    (avoids : Arena.Avoids A (.faulted (.foreignAddress address))) :
    (deallocate address heap).result = .error (.faulted (.foreignAddress address)) ↔
      Arena.unit A ≤ address ∧
        Arena.contains heap.arena (address - Arena.unit A) (Arena.unit A) = false := by
  rcases deallocate_cases heap address with
    ⟨below, ended, -⟩ | ⟨above, unknown, ended, -⟩ | ⟨above, known, ended, -⟩
  · simp [ended, Nat.not_le.2 below]
  · simp [ended, above, unknown]
  · rw [ended, known]
    have passed : (Pool.insert (address - Arena.unit A) heap.pool).result ≠
        .error (.faulted (.foreignAddress address)) :=
      Pool.avoids_insert (.foreign address) avoids nofun heap.pool
    exact iff_of_false passed nofun

end Heap

namespace Segment

theorem notBy_readWord (reserved : failure.Reserved) (segment : Segment) (address : Nat) :
    failure.NotBy (segment.readWord address) := by
  unfold readWord readBytes outside
  split
  · exact .ok _
  · exact .error (by cases reserved <;> nofun)

theorem avoids_writeWord (reserved : failure.Reserved) (address value : Nat) :
    (writeWord address value).Avoids failure := by
  refine .bind (.require (by cases reserved <;> nofun)) fun _ segment => ?_
  unfold writeBytes outside
  cases reserved <;> split <;> nofun

/-- A segment knows nothing of the guards of a heap. -/
theorem avoids (reserved : failure.Reserved) : Arena.Avoids Segment failure where
  load segment address := by
    refine .bind (Size.notBy_add reserved _ _) fun sizeAddress => ?_
    refine .bind (notBy_readWord reserved _ _) fun size => ?_
    exact .bind (notBy_readWord reserved _ _) fun next => .ok _
  store address header := by
    refine .bind (avoids_writeWord reserved _ _) fun _ => ?_
    exact .bind (.lift (Size.notBy_add reserved _ _)) fun _ => avoids_writeWord reserved _ _

end Segment

end NextFit
