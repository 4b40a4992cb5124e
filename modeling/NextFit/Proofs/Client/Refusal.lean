import NextFit.Proofs.Arena.Segment
import NextFit.Proofs.Client.Observation

/-! # A failed allocation leaves no trace

An allocation that fails has changed one thing at most: a free list that was never used is in use now,
and still empty. Every request starts with the same use of the list, so from then on no request can
tell whether the failed one was made. This needs an arena that is unchanged when it does not grow.
-/

namespace NextFit

/-- Arenas of this kind are unchanged when they do not grow. -/
def Arena.Atomic (A : Type) [Arena A] : Prop :=
  ∀ {arena arena' : A} {bytes : Nat} {failure : Failure},
    (Arena.extend bytes).Yields arena (.error failure) arena' → arena' = arena

theorem Arena.Atomic.declined {A : Type} [Arena A] {arena arena' : A} (atomic : Arena.Atomic A)
    (h : Arena.Declined arena arena') : arena' = arena := by
  cases h with
  | inl same => exact same
  | inr failed =>
      obtain ⟨bytes, failure, extended⟩ := failed
      exact atomic extended

namespace Pool

variable {A α : Type} {pool other : Pool A}

/-- The second pool is the first one, or what it becomes when its empty list is used. -/
def Primes (pool other : Pool A) : Prop :=
  other = pool ∨
    other = pool.withCursor pool.start ∧ pool.freeList.sentinel.next = sentinelAddress

namespace Primes

theorem refl (pool : Pool A) : pool.Primes pool :=
  .inl rfl

theorem useCursor (h : pool.Primes other) : useCursor.Matches Eq pool other := by
  obtain ⟨result, state⟩ := yields_useCursor pool
  cases h with
  | inl same => exact same ▸ ⟨rfl, rfl⟩
  | inr primed =>
      obtain ⟨rfl, -⟩ := primed
      obtain ⟨result', state'⟩ := yields_useCursor (pool.withCursor pool.start)
      exact ⟨result.trans result'.symm, state.trans state'.symm⟩

theorem inArena (h : pool.Primes other) (op : Op A α) :
    (inArena op).Matches Primes pool other := by
  cases h with
  | inl same => exact same ▸ ⟨rfl, refl _⟩
  | inr primed =>
      obtain ⟨rfl, leads⟩ := primed
      exact ⟨rfl, .inr ⟨rfl, leads⟩⟩

variable [Arena A]

theorem take {units : Nat} (h : pool.Primes other) (positive : 0 < units) :
    (take units).Matches Eq pool other := by
  have passed : (Op.require (1 ≤ units) .noUnits : Op (Pool A) Unit) = pure () := if_pos positive
  rw [Pool.take, passed, pure_bind]
  exact h.useCursor.bind_eq

theorem insert (h : pool.Primes other) (block : Nat) : (insert block).Matches Primes pool other :=
  .bind (.require h _ _) fun _ _ _ h => .of_eq refl h.useCursor.bind_eq

theorem blocks_eq (h : pool.Primes other) : other.blocks = pool.blocks := by
  cases h with
  | inl same => rw [same]
  | inr primed =>
      obtain ⟨rfl, leads⟩ := primed
      cases used : pool.freeList.cursor with
      | none =>
          have reached : (pool.withCursor pool.start).blocksFrom Size.bound sentinelAddress = .ok [] :=
            blocksFrom_of_links .stop (by decide)
          rw [blocks_of_unused used, ← reached, ← leads]
          rfl
      | some cursor => rw [withCursor_start used]

end Primes

end Pool

namespace Heap

variable {A : Type} {heap other : Heap A}

/-- The same heap, but that its empty free list may have been used in the second one. -/
def Primes (heap other : Heap A) : Prop :=
  ∃ pool, heap.pool.Primes pool ∧ other = { heap with pool }

namespace Primes

theorem refl (heap : Heap A) : heap.Primes heap :=
  ⟨heap.pool, .refl _, rfl⟩

theorem arena_eq (h : heap.Primes other) : other.arena = heap.arena := by
  obtain ⟨pool, primes, rfl⟩ := h
  rcases primes with rfl | ⟨rfl, -⟩
  · rfl
  · rfl

theorem inPool {α : Type} {op : Op (Pool A) α} (h : heap.Primes other)
    (inside : ∀ pool, heap.pool.Primes pool → op.Matches Pool.Primes heap.pool pool) :
    (inPool op).Matches Primes heap other := by
  obtain ⟨pool, primes, rfl⟩ := h
  have both := inside pool primes
  exact ⟨both.result, _, both.state, rfl⟩

variable [Arena A]

theorem acquire {units : Nat} (h : heap.Primes other) (positive : 0 < units) (rounds : Nat) :
    (acquire units (rounds + 1)).Matches Eq heap other := by
  obtain ⟨pool, primes, rfl⟩ := h
  have taken := primes.take positive
  have both : (Heap.inPool (Pool.take units)).Matches Eq heap { heap with pool } :=
    ⟨taken.result, congrArg (fun pool => { heap with pool }) taken.state⟩
  exact both.bind_eq

theorem allocate (h : heap.Primes other) (size : Nat) :
    (allocate size).Matches Primes heap other := by
  refine .lift_bind h fun wanted counted => ?_
  cases chosen : wanted.filter fun units => (Size.mul? units (Arena.unit A)).isSome with
  | none => exact ⟨rfl, h⟩
  | some units =>
      obtain ⟨rfl, -⟩ := Option.filter_eq_some_iff.1 chosen
      have positive := unitsFor_pos counted
      obtain ⟨rounds, bound⟩ : ∃ rounds, Size.bound = rounds + 1 := ⟨Size.bound - 1, rfl⟩
      have reported : (Op.report (.allocating size units)).Matches Primes heap other := ⟨rfl, h⟩
      simp only [bound]
      apply reported.bind
      intro _ heap other h
      apply Op.Matches.bind (.of_eq refl (h.acquire positive rounds))
      exact fun block _ _ h => .lift h _

theorem deallocate (h : heap.Primes other) (address : Nat) :
    (deallocate address).Matches Primes heap other := by
  apply Op.Matches.bind (.lift h _)
  intro block heap other h
  apply Op.Matches.bind_state (by rw [h.arena_eq])
  apply Op.Matches.bind (.require h _ _)
  intro _ heap other h
  have reported : (Op.report (.deallocating address)).Matches Primes heap other := ⟨rfl, h⟩
  apply reported.bind
  exact fun _ _ _ h => h.inPool fun pool primes => primes.insert block

theorem fill (h : heap.Primes other) (address : Nat) (value : UInt8) (count : Nat) :
    (fill address value count).Matches Primes heap other := by
  apply Op.Matches.bind_state (by rw [h.arena_eq])
  apply Op.Matches.bind (.require h _ _)
  exact fun _ _ _ h => h.inPool fun pool primes => primes.inArena _

theorem freeBlocks_eq (h : heap.Primes other) : other.freeBlocks = heap.freeBlocks := by
  obtain ⟨pool, primes, rfl⟩ := h
  exact primes.blocks_eq

theorem stats_eq (h : heap.Primes other) : other.stats = heap.stats := by
  have blocks := h.freeBlocks_eq
  obtain ⟨pool, primes, rfl⟩ := h
  simp only [stats, blocks]

end Primes

end Heap

namespace Client

variable {A : Type} [Arena A] {client other : Client A}

/-- The clients hold the same, and so do their heaps, but that an empty free list may have been used
    in the second one. -/
structure Primes (client other : Client A) : Prop where
  heap : client.heap.Primes other.heap
  live : other.live = client.live

namespace Primes

theorem step (h : client.Primes other) (request : Request) :
    (client.step request).Primes (other.step request) ∧
      client.answer request = other.answer request := by
  cases request with
  | allocate size =>
      have both := h.heap.allocate size
      refine ⟨⟨both.state, ?_⟩, congrArg (Except.map some) both.result⟩
      simp only [Client.step, both.result, h.live]
  | deallocate address =>
      have both := h.heap.deallocate address
      refine ⟨⟨both.state, ?_⟩, congrArg (Except.map fun _ => none) both.result⟩
      simp only [Client.step, both.result, h.live]
  | fill address value count =>
      have both := h.heap.fill address value count
      exact ⟨⟨both.state, h.live⟩, congrArg (Except.map fun _ => none) both.result⟩

/-- No request can tell the clients apart, be it a permitted one or not. -/
theorem observations_eq (h : client.Primes other) (requests : List Request) :
    other.observations requests = client.observations requests := by
  induction requests generalizing client other with
  | nil => rfl
  | cons request rest ih =>
      obtain ⟨after, same⟩ := h.step request
      simp only [observations, observe, ih after, same, after.heap.freeBlocks_eq,
        after.heap.stats_eq]

end Primes

/-- A failed allocation is at most a first use of the free list. -/
theorem Sound.primes {Keeps : A → Ledger → Prop} {ledger : Ledger} {free : List FreeBlock}
    {size : Nat} {failure : Failure} (laws : Arena.Laws Keeps) (atomic : Arena.Atomic A)
    (h : client.Sound Keeps ledger free)
    (failed : (Heap.allocate size client.heap).result = .error failure) :
    client.Primes (client.step (.allocate size)) := by
  constructor
  case live => simp only [Client.step, failed]
  case heap =>
    cases (h.allocate_fails laws failed).idle with
    | inl same => exact same ▸ .refl _
    | inr used =>
        obtain ⟨arena', declined, same⟩ := used
        cases atomic.declined declined
        refine ⟨_, ?_, same⟩
        cases unused : client.heap.pool.freeList.cursor with
        | some cursor => exact .inl (Pool.withCursor_start unused)
        | none =>
            have holds := h.accounts.holds
            have leads : client.heap.pool.freeList.sentinel.next = sentinelAddress := by
              rw [holds.sentinel_eq, holds.unused unused]
              rfl
            exact .inr ⟨rfl, leads⟩

/-- Behind every run, an allocation that fails leaves the arena, the free blocks, the counts and what
    is live as they were, and whatever is requested later shows the same as without it. -/
theorem failed_allocation_unobservable {arena : A} {config : HeapConfig} {requests : List Request}
    {size : Nat} {failure : Failure} (lawful : Arena.Lawful arena) (atomic : Arena.Atomic A)
    (permitted : (new arena config).PermitsAll requests)
    (failed : (Heap.allocate size ((new arena config).run requests).heap).result = .error failure) :
    let client := (new arena config).run requests
    let after := client.step (.allocate size)
    after.heap.arena = client.heap.arena ∧ after.heap.freeBlocks = client.heap.freeBlocks ∧
      after.heap.stats = client.heap.stats ∧ after.live = client.live ∧
      ∀ more, after.observations more = client.observations more := by
  intro client after
  obtain ⟨Keeps, laws, keeps⟩ := lawful
  have start : (new arena config).Sound Keeps {} [] := .new keeps config
  obtain ⟨ledger, free, sound, -⟩ := start.run laws permitted
  have primes : client.Primes after := sound.primes laws atomic failed
  exact ⟨primes.heap.arena_eq, primes.heap.freeBlocks_eq, primes.heap.stats_eq, primes.live,
    primes.observations_eq⟩

/-- The first request of all fails and puts the free list into use. -/
theorem failed_allocation_unobservable_first :
    let client := new (Segment.default.withLimit 64) { minExtensionUnits := 4 }
    let after := client.step (.allocate 100)
    client.heap.pool.freeList.cursor = none ∧ after.heap.pool.freeList.cursor = some 0 ∧
      (Heap.allocate 100 client.heap).result = .error (.refused (.outOfMemory 112)) ∧
      ∀ more, after.observations more = client.observations more := by
  intro client after
  have unused : client.heap.pool.freeList.cursor = none := by decide
  have used : after.heap.pool.freeList.cursor = some 0 := by decide
  have failed : (Heap.allocate 100 (client.run []).heap).result =
      .error (.refused (.outOfMemory 112)) := by decide
  have permitted : client.PermitsAll [] := trivial
  obtain ⟨-, -, -, -, later⟩ := failed_allocation_unobservable
    (Segment.lawful (Segment.default.withLimit 64)) Segment.extend_error permitted failed
  exact ⟨unused, used, failed, later⟩

end Client

end NextFit
