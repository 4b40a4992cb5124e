import NextFit.Proofs.Client.OnSegment
import NextFit.Proofs.Heap.Guard

/-! # What the guards of a deallocation let through

`heap.Trips free address fault` says which guard an address comes to grief at, in terms of the bounds
of the arena and of the list of the free blocks. Behind every run this is what happens for every
address there is, and nothing has changed when a guard fails. An address that the client holds passes
all of them.
-/

namespace NextFit

/-- The guard that an address fails at when it is given back, and the fault that tells so. -/
inductive Heap.Trips {A : Type} [Arena A] (heap : Heap A) (free : List FreeBlock) (address : Nat) :
    Fault → Prop where
  /-- There is no room for a header in front of the address. -/
  | below : address < Arena.unit A → Trips heap free address (.overflow .subtraction)
  /-- The header would not lie in the arena. -/
  | foreign :
      Arena.unit A ≤ address →
      Arena.contains heap.arena (address - Arena.unit A) (Arena.unit A) = false →
      Trips heap free address (.foreignAddress address)
  /-- The header is the one of a free block. -/
  | doubleFree {b : FreeBlock} :
      b ∈ free →
      b.address + Arena.unit A = address →
      Trips heap free address (.doubleFree b.address)

namespace Heap.Trips

variable {A : Type} [Arena A] {heap : Heap A} {free : List FreeBlock} {address : Nat}

theorem below_iff :
    heap.Trips free address (.overflow .subtraction) ↔ address < Arena.unit A := by
  constructor
  · intro trips
    cases trips with
    | below low => exact low
  · exact .below

theorem foreign_iff {named : Nat} :
    heap.Trips free address (.foreignAddress named) ↔
      named = address ∧ Arena.unit A ≤ address ∧
        Arena.contains heap.arena (address - Arena.unit A) (Arena.unit A) = false := by
  constructor
  · intro trips
    cases trips with
    | foreign above unknown => exact ⟨rfl, above, unknown⟩
  · rintro ⟨rfl, above, unknown⟩
    exact .foreign above unknown

theorem doubleFree_iff {block : Nat} :
    heap.Trips free address (.doubleFree block) ↔
      block + Arena.unit A = address ∧ ∃ b ∈ free, b.address = block := by
  constructor
  · intro trips
    cases trips with
    | @doubleFree b mem place => exact ⟨place, b, mem, rfl⟩
  · rintro ⟨place, b, mem, rfl⟩
    exact .doubleFree mem place

end Heap.Trips

namespace Client

namespace Sound

variable {client : Client Segment} {start address : Nat} {ledger : Ledger} {free : List FreeBlock}
  {fault : Fault}

/-- The arena knows the header of each free block. -/
theorem knows_free (h : client.Sound (Segment.Keeps start) ledger free) {b : FreeBlock}
    (mem : b ∈ free) : client.heap.arena.contains b.address Segment.unit = true := by
  have nonempty := h.accounts.holds.nonempty b mem
  apply h.contains_free mem (Nat.le_refl _)
  exact Nat.add_le_add_left (Nat.le_mul_of_pos_left _ nonempty) _

/-- What an insertion says of a block that the arena knows. -/
theorem insert_doubleFree_iff (h : client.Sound (Segment.Keeps start) ledger free) {block : Nat}
    (known : client.heap.arena.contains block Segment.unit = true) :
    ((Pool.insert block client.heap.pool).result = .error (.faulted (.doubleFree block)) ↔
        ∃ b ∈ free, b.address = block) ∧
      ((∃ b ∈ free, b.address = block) →
        (Pool.insert block client.heap.pool).state = client.heap.pool) := by
  have holds := h.accounts.holds
  have laws := Segment.laws start
  have base := (Segment.contains_eq_true_iff.1 known).1
  have nonzero : block ≠ sentinelAddress := by
    have positive := client.heap.arena.base_ne_zero
    rw [sentinelAddress]
    omega
  obtain ⟨caught, unchanged⟩ := Pool.insert_doubleFree_iff
    (Segment.avoids (.doubleFree block)) nonzero ((holds.withCursor holds.node).blocks_eq laws)
  refine ⟨caught, fun found => (unchanged found).trans ?_⟩
  obtain ⟨b, mem, -⟩ := found
  exact holds.withCursor_start mem

/-- An address ends with the fault of a guard exactly if it trips that guard. -/
theorem trips_iff (h : client.Sound (Segment.Keeps start) ledger free)
    (reserved : (Failure.faulted fault).Reserved) :
    (Heap.deallocate address client.heap).result = .error (.faulted fault) ↔
      client.heap.Trips free address fault := by
  rcases Heap.deallocate_cases client.heap address with
    ⟨low, ended, -⟩ | ⟨above, unknown, ended, -⟩ | ⟨above, known, ended, -⟩
  all_goals rw [ended]
  · constructor
    · intro same
      cases same
      exact .below low
    · intro trips
      cases trips with
      | below => rfl
      | foreign above => exact absurd low (Nat.not_lt.2 above)
      | doubleFree mem place => omega
  · constructor
    · intro same
      cases same
      exact .foreign above unknown
    · intro trips
      cases trips with
      | below low => exact absurd low (Nat.not_lt.2 above)
      | foreign => rfl
      | @doubleFree b mem place =>
          rw [← place, Nat.add_sub_cancel] at unknown
          cases unknown.symm.trans (h.knows_free mem)
  · obtain ⟨caught, -⟩ := h.insert_doubleFree_iff known
    constructor
    · intro failed
      by_cases own : fault = .doubleFree (address - Arena.unit Segment)
      · subst own
        obtain ⟨b, mem, place⟩ := caught.1 failed
        rw [← place]
        exact .doubleFree mem (by omega)
      · exact absurd failed (Pool.avoids_insert reserved (Segment.avoids reserved)
          (fun same => own (Failure.faulted.inj same)) client.heap.pool)
    · intro trips
      cases trips with
      | below low => exact absurd low (Nat.not_lt.2 above)
      | foreign _ unknown => cases unknown.symm.trans known
      | @doubleFree b mem place =>
          rw [← place, Nat.add_sub_cancel] at caught ⊢
          exact caught.2 ⟨b, mem, rfl⟩

/-- Nothing has changed when a guard fails. -/
theorem trips_state (h : client.Sound (Segment.Keeps start) ledger free)
    (trips : client.heap.Trips free address fault) :
    (Heap.deallocate address client.heap).state = client.heap := by
  rcases Heap.deallocate_cases client.heap address with
    ⟨-, -, state⟩ | ⟨-, -, -, state⟩ | ⟨above, known, -, state⟩
  · exact state
  · exact state
  · rw [state]
    cases trips with
    | below low => exact absurd low (Nat.not_lt.2 above)
    | foreign _ unknown => cases unknown.symm.trans known
    | @doubleFree b mem place =>
        have same := (h.insert_doubleFree_iff known).2 ⟨b, mem, by omega⟩
        exact congrArg (fun pool => { client.heap with pool }) same

end Sound

variable {segment : Segment} {config : HeapConfig} {requests : List Request}

/-- Behind every run, an address fails at the guard that it has to fail at, whatever address it is, and
    a failure there leaves the heap as it is. No guard stops an address that the client holds. -/
theorem deallocate_guards_exact (permitted : (new segment config).PermitsAll requests)
    (address : Nat) :
    let client := (new segment config).run requests
    let heap := client.heap
    let outcome := Heap.deallocate address heap
    let inside := heap.arena.base ≤ address - Segment.unit ∧ address ≤ heap.arena.brk
    ∃ free, heap.freeBlocks = .ok free ∧
      (outcome.result = .error (.faulted (.overflow .subtraction)) ↔ address < Segment.unit) ∧
      (∀ named, outcome.result = .error (.faulted (.foreignAddress named)) ↔
        named = address ∧ Segment.unit ≤ address ∧ ¬ inside) ∧
      (∀ block, outcome.result = .error (.faulted (.doubleFree block)) ↔
        block + Segment.unit = address ∧ ∃ b ∈ free, b.address = block) ∧
      (address < Segment.unit ∨ ¬ inside ∨ (∃ b ∈ free, b.address + Segment.unit = address) →
        outcome.state = heap) ∧
      ((∃ a ∈ client.live, a.address = address) → outcome.result = .ok ()) := by
  intro client heap outcome inside
  obtain ⟨start, ledger, free, sound⟩ := orderly_run permitted
  have laws := Segment.laws start
  have outside (above : Segment.unit ≤ address) :
      heap.arena.contains (address - Segment.unit) Segment.unit = false ↔ ¬ inside := by
    rw [← Bool.not_eq_true, Segment.contains_iff_of_pos (by decide), Nat.sub_add_cancel above]
  refine ⟨free, sound.freeBlocks_eq laws, ?below, fun named => ?foreign, fun block => ?doubleFree,
    ?unchanged, ?live⟩
  case below => exact (sound.trips_iff .below).trans Heap.Trips.below_iff
  case foreign =>
    rw [sound.trips_iff (.foreign named), Heap.Trips.foreign_iff]
    exact and_congr_right fun _ => and_congr_right outside
  case doubleFree => exact (sound.trips_iff (.doubleFree block)).trans Heap.Trips.doubleFree_iff
  case unchanged =>
    intro stopped
    by_cases low : address < Segment.unit
    · exact sound.trips_state (.below low)
    · rcases stopped with low' | far | ⟨b, mem, place⟩
      · exact absurd low' low
      · have above := Nat.not_lt.1 low
        exact sound.trips_state (.foreign above ((outside above).2 far))
      · exact sound.trips_state (.doubleFree mem place)
  case live =>
    rintro ⟨a, held, rfl⟩
    exact (sound.deallocate laws held).1

/-- One block is free, and one is held. The addresses in front of the arena, within its first unit, of
    the free block and of the held one come to four different ends. -/
theorem deallocate_guards_exact_one_of_each :
    let client := (new Segment.default { minExtensionUnits := 0 }).run
      [.allocate 8, .allocate 8, .deallocate 0x10040008]
    let outcome (address : Nat) := Heap.deallocate address client.heap
    (outcome 7).result = .error (.faulted (.overflow .subtraction)) ∧
      (outcome 0x10040007).result = .error (.faulted (.foreignAddress 0x10040007)) ∧
      (outcome 0x10040008).result = .error (.faulted (.doubleFree 0x10040000)) ∧
      (∀ address ∈ [7, 0x10040007, 0x10040008], (outcome address).state = client.heap) ∧
      (outcome 0x10040018).result = .ok () := by
  intro client outcome
  have permitted : (new Segment.default { minExtensionUnits := 0 }).PermitsAll
      [.allocate 8, .allocate 8, .deallocate 0x10040008] := by decide
  have listed : client.heap.freeBlocks = .ok [{ address := 0x10040000, size := 2 }] := by decide
  have base : client.heap.arena.base = 0x10040000 := by decide
  obtain ⟨_, _, low, -, -, lowState, -⟩ := deallocate_guards_exact permitted 7
  obtain ⟨_, _, -, foreign, -, foreignState, -⟩ := deallocate_guards_exact permitted 0x10040007
  obtain ⟨free, known, -, -, double, doubleState, -⟩ :=
    deallocate_guards_exact permitted 0x10040008
  obtain ⟨_, _, -, -, -, -, live⟩ := deallocate_guards_exact permitted 0x10040018
  cases known.symm.trans listed
  have outside : ¬ (client.heap.arena.base ≤ 0x10040007 - Segment.unit ∧
      0x10040007 ≤ client.heap.arena.brk) := by
    rw [base]
    decide
  have again : ∃ b ∈ [({ address := 0x10040000, size := 2 } : FreeBlock)],
      b.address + Segment.unit = 0x10040008 := by decide
  refine ⟨low.2 (by decide), (foreign _).2 ⟨rfl, by decide, outside⟩,
    (double 0x10040000).2 ⟨by decide, by decide⟩, ?_, live (by decide)⟩
  simp only [List.forall_mem_cons]
  exact ⟨lowState (.inl (by decide)), foreignState (.inr (.inl outside)),
    doubleState (.inr (.inr again)), nofun⟩

end Client

end NextFit
