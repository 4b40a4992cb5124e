import Mathlib.Data.List.Forall2
import NextFit.Proofs.Client.Mirror
import NextFit.Proofs.Client.OnSegment

/-! # Segments in different places

Where a segment starts makes no difference: over two segments with the same limit, heaps serve the same
requests alike, and all addresses differ by the distance of the bases. That is so as long as the limit
and not the range of header words ends both segments, also if one of them starts right above the
sentinel and the other one goes up to the last address of that range.
-/

namespace NextFit

/-- The second address is as far from `base'` as the first one is from `base`. -/
def Shifted (base base' address address' : Nat) : Prop :=
  address + base' = address' + base

/-- One block at two places. -/
structure FreeBlock.Shifted (base base' : Nat) (b b' : FreeBlock) : Prop where
  address : NextFit.Shifted base base' b.address b'.address
  size : b'.size = b.size

namespace Client

/-- One answer at two places. -/
inductive AnswerShifted (base base' : Nat) :
    Except Failure (Option Nat) → Except Failure (Option Nat) → Prop where
  | address {address address' : Nat} :
      Shifted base base' address address' →
      AnswerShifted base base' (.ok (some address)) (.ok (some address'))
  | done : AnswerShifted base base' (.ok none) (.ok none)
  | failed (failure : Failure) : AnswerShifted base base' (.error failure) (.error failure)

/-- What one request shows at two places. -/
structure Observation.Shifted (base base' : Nat) (seen seen' : Observation) : Prop where
  answer : AnswerShifted base base' seen.answer seen'.answer
  freeBlocks : ∃ free free', seen.freeBlocks = .ok free ∧ seen'.freeBlocks = .ok free' ∧
    List.Forall₂ (FreeBlock.Shifted base base') free free'
  stats : seen'.stats = seen.stats

end Client

namespace Segment

variable {move : Relocation} {origin origin' segment segment' : Segment} {ledger ledger' : Ledger}
  {limit : Nat}

/-- Two segments that nothing but the limit ends, at the places that `move` leads from and to. -/
structure Moved (move : Relocation) (origin origin' : Segment) (limit : Nat) : Prop where
  base : move.base = origin.brk
  target : move.target = origin'.brk
  length : origin'.length = origin.length
  limited : origin.limit = some limit
  limited' : origin'.limit = some limit
  room : origin.base + limit ≤ wordBound
  room' : origin'.base + limit ≤ wordBound

namespace Moved

variable (moved : Moved move origin origin' limit) (h : KeepsWithin origin.brk origin segment ledger)
  (h' : KeepsWithin origin'.brk origin' segment' ledger')

include moved h

theorem base_le : ∀ region ∈ ledger.regions, move.base ≤ region.start :=
  fun _ mem => moved.base ▸ (h.follow.inside mem).1

theorem base_le_reply {bytes base : Nat} (answer : Arena.reply segment bytes = .ok base) :
    move.base ≤ base := by
  rw [reply_eq] at answer
  split at answer <;> cases answer
  exact moved.base ▸ h.follow.le

include h'

/-- Segments that have been granted equally much still grow alike. -/
theorem reply (wellFormed : ledger.WellFormed unit) (wellFormed' : ledger'.WellFormed unit)
    (units : ledger'.units unit = ledger.units unit) (bytes : Nat) :
    Arena.reply segment' bytes = (Arena.reply segment bytes).map move.apply := by
  have length : segment'.length = segment.length := by
    rw [h.length_eq wellFormed, h'.length_eq wellFormed', moved.length, units]
  have place : move.apply segment.brk = segment'.brk := by
    have ends : move.apply segment.brk + move.base = segment.brk + move.target :=
      Relocation.apply_of_le (moved.base ▸ h.follow.le)
    have base := h.base
    have base' := h'.base
    have lengths := moved.length
    rw [moved.base, moved.target] at ends
    simp only [brk] at ends ⊢
    omega
  have grown : (segment'.grownLength? bytes).isSome = (segment.grownLength? bytes).isSome := by
    have room := moved.room
    have room' := moved.room'
    rw [← h.base] at room
    rw [← h'.base] at room'
    rw [Bool.eq_iff_iff, grows_iff, grows_iff, h.limit, h'.limit, moved.limited, moved.limited', length]
    simp only [Option.mem_some_iff, forall_eq']
    omega
  rw [reply_eq, reply_eq, grown, ← place]
  split <;> rfl

end Moved

end Segment

namespace Client

theorem live_of_answer {A : Type} [Arena A] {client : Client A} {request : Request} {address : Nat}
    (answer : client.answer request = .ok (some address)) :
    ∃ a ∈ (client.step request).live, a.address = address := by
  cases request with
  | allocate size =>
      cases done : (Heap.allocate size client.heap).result with
      | error failure => simp [Client.answer, done, Except.map] at answer
      | ok given =>
          simp only [Client.answer, done, Except.map, Except.ok.injEq, Option.some.injEq] at answer
          simp [Client.step, done, answer]
  | deallocate address =>
      cases done : (Heap.deallocate address client.heap).result <;>
        simp [Client.answer, done, Except.map] at answer
  | fill address value count =>
      cases done : (Heap.fill address value count client.heap).result <;>
        simp [Client.answer, done, Except.map] at answer

variable {move : Relocation} {origin origin' : Segment} {client other : Client Segment}
  {ledger ledger' : Ledger} {free : List FreeBlock} {limit : Nat} {request request' : Request}
  {requests requests' : List Request} {config : HeapConfig}

namespace Mirrors

variable (moved : Segment.Moved move origin origin' limit)
  (h : Mirrors move (Segment.KeepsWithin origin.brk origin) (Segment.KeepsWithin origin'.brk origin')
    client other ledger ledger' free)

include moved h

theorem low : ∀ region ∈ ledger.regions, move.base ≤ region.start :=
  moved.base_le h.sound.accounts.holds.keeps

/-- All addresses of a request that is permitted lie in the memory that moves. -/
theorem mapAddresses_eq (permitted : client.Permits request) :
    request.mapAddresses (· + move.target - move.base) = request.mapAddresses move.apply := by
  have laws := Segment.laws_within origin.brk origin
  have low := h.low moved
  have place : ∀ {a : Allocation} {address : Nat}, a ∈ client.live → a.address ≤ address →
      address + move.target - move.base = move.apply address := by
    intro a address held first
    have bound := h.sound.live_le laws low held
    have ends := Relocation.apply_of_le (Nat.le_trans (Nat.le_of_add_right_le bound) first)
    omega
  cases request with
  | allocate size => rfl
  | deallocate address =>
      obtain ⟨a, held, rfl⟩ := permitted
      exact congrArg Request.deallocate (place held (Nat.le_refl _))
  | fill address value count =>
      obtain ⟨a, held, first, -⟩ := permitted
      exact congrArg (Request.fill · value count) (place held first)

theorem advance_moved (permitted : client.Permits request) :
    Advance move (Segment.KeepsWithin origin.brk origin) (Segment.KeepsWithin origin'.brk origin')
      client other request := by
  have keeps := h.sound.accounts.holds.keeps
  exact h.advance rfl (Segment.laws_within _ _) (Segment.laws_within _ _) (h.low moved)
    (Segment.fillable_within _ _) (Segment.fillable_within _ _)
    (fun _ _ => moved.base_le_reply keeps)
    (moved.reply keeps h.sound'.accounts.holds.keeps h.sound.accounts.holds.wellFormed
      h.sound'.accounts.holds.wellFormed h.units_eq) permitted

end Mirrors

/-- What mirrored clients show differs by the distance that the memory has moved. -/
theorem Mirrors.Advance.shifted (moved : Segment.Moved move origin origin' limit)
    (h : Mirrors.Advance move (Segment.KeepsWithin origin.brk origin)
      (Segment.KeepsWithin origin'.brk origin') client other request) :
    (client.observe request).Shifted move.base move.target
      (other.observe (request.mapAddresses move.apply)) := by
  obtain ⟨answer, ledger, ledger', free, mirrors⟩ := h
  have laws := Segment.laws_within origin.brk origin
  have low := mirrors.low moved
  obtain ⟨listed, listed'⟩ := mirrors.freeBlocks_eq laws (Segment.laws_within _ _)
  have place : ∀ {address : Nat}, move.base ≤ address →
      Shifted move.base move.target address (move.apply address) :=
    fun inside => (Relocation.apply_of_le inside).symm
  constructor
  case answer =>
    simp only [observe, answer]
    cases told : client.answer request with
    | error failure => exact .failed failure
    | ok value =>
        cases value with
        | none => exact .done
        | some address =>
            obtain ⟨a, held, rfl⟩ := live_of_answer told
            have bound := mirrors.sound.live_le laws low held
            exact .address (place (Nat.le_of_add_right_le bound))
  case freeBlocks =>
    refine ⟨free, _, listed, listed', ?_⟩
    rw [FreeBlock.relocate, List.forall₂_map_right_iff, List.forall₂_same]
    intro b mem
    exact ⟨place (mirrors.sound.base_le laws low (List.mem_append_left _ mem)), rfl⟩
  case stats => exact mirrors.stats_eq laws (Segment.laws_within _ _)

theorem Mirrors.run (moved : Segment.Moved move origin origin' limit)
    (h : Mirrors move (Segment.KeepsWithin origin.brk origin)
      (Segment.KeepsWithin origin'.brk origin') client other ledger ledger' free)
    (permitted : client.PermitsAll requests) :
    let requests' := requests.map (Request.mapAddresses (· + move.target - move.base))
    other.PermitsAll requests' ∧
      List.Forall₂ (Observation.Shifted move.base move.target) (client.observations requests)
        (other.observations requests') := by
  induction requests generalizing client other ledger ledger' free with
  | nil => exact ⟨trivial, .nil⟩
  | cons request rest ih =>
      have advance := h.advance_moved moved permitted.1
      have permits := h.permits rfl (Segment.laws_within _ _) (h.low moved) permitted.1
      have seen := advance.shifted moved
      obtain ⟨-, after, after', left, mirrors⟩ := advance
      rw [← h.mapAddresses_eq moved permitted.1] at permits seen mirrors
      obtain ⟨later, seenLater⟩ := ih mirrors permitted.2
      exact ⟨⟨permits, later⟩, .cons seen seenLater⟩

/-- The same requests at two places show the same at these places. -/
theorem observations_shifted (limit : Nat) (config : HeapConfig) {base base' : Nat}
    (nonzero : base ≠ 0) (aligned : base % 8 = 0) (room : base + limit ≤ 2 ^ 32)
    (nonzero' : base' ≠ 0) (aligned' : base' % 8 = 0) (room' : base' + limit ≤ 2 ^ 32) :
    ∃ segment segment', Segment.create base = .ok segment ∧ Segment.create base' = .ok segment' ∧
      ∀ requests, (new (segment.withLimit limit) config).PermitsAll requests →
        let requests' := requests.map (Request.mapAddresses (· + base' - base))
        (new (segment'.withLimit limit) config).PermitsAll requests' ∧
          List.Forall₂ (Observation.Shifted base base')
            ((new (segment.withLimit limit) config).observations requests)
            ((new (segment'.withLimit limit) config).observations requests') := by
  obtain ⟨segment, created, rfl, empty⟩ := Segment.exists_create nonzero aligned
  obtain ⟨segment', created', rfl, empty'⟩ := Segment.exists_create nonzero' aligned'
  refine ⟨segment, segment', created, created', fun requests permitted => ?_⟩
  let move : Relocation := {
    base := segment.base
    target := segment'.base
    base_pos := Nat.pos_of_ne_zero nonzero
    target_pos := Nat.pos_of_ne_zero nonzero' }
  have moved : Segment.Moved move (segment.withLimit limit) (segment'.withLimit limit) limit := {
    base := by simp [move, Segment.brk, Segment.withLimit, empty]
    target := by simp [move, Segment.brk, Segment.withLimit, empty']
    length := empty'.trans empty.symm
    limited := rfl
    limited' := rfl
    room
    room' }
  have start : Mirrors move
      (Segment.KeepsWithin (segment.withLimit limit).brk (segment.withLimit limit))
      (Segment.KeepsWithin (segment'.withLimit limit).brk (segment'.withLimit limit))
      (new (segment.withLimit limit) config) (new (segment'.withLimit limit) config) {} {} [] := {
    sound := .new (Segment.keepsWithin_empty _) config
    sound' := .new (Segment.keepsWithin_empty _) config
    layout := congrArg (Layout.mk [] · config 0 0) Relocation.apply_sentinel.symm
    live := rfl }
  exact start.run moved permitted

/-- One segment starts right above the sentinel, and the other one ends where the range of header words
    does. -/
theorem observations_shifted_to_the_end :
    let segment : Segment := {
      base := 8
      base_ne_zero := by decide
      base_aligned := by decide
      addressable := .inl rfl
      untouched := fun address _ => Memory.byteAt_blank address }
    let segment' : Segment := {
      base := 0xffffffc0
      base_ne_zero := by decide
      base_aligned := by decide
      addressable := .inl rfl
      untouched := fun address _ => Memory.byteAt_blank address }
    let client := new (segment.withLimit 64) { minExtensionUnits := 4 }
    let client' := new (segment'.withLimit 64) { minExtensionUnits := 4 }
    let requests : List Request := [.allocate 12, .allocate 24, .fill 24 7 8, .deallocate 24,
      .allocate 1, .deallocate 48, .allocate 100]
    let requests' := requests.map (Request.mapAddresses (· + 0xffffffc0 - 8))
    client.PermitsAll requests ∧ client'.PermitsAll requests' ∧
      (client.run requests).heap.freeBlocks =
        .ok [{ address := 8, size := 2 }, { address := 40, size := 4 }] ∧
      (client'.run requests').heap.arena.brk = 2 ^ 32 ∧
      List.Forall₂ (Observation.Shifted 8 0xffffffc0) (client.observations requests)
        (client'.observations requests') := by
  intro segment segment' client client' requests requests'
  have permitted : client.PermitsAll requests := by decide
  obtain ⟨first, second, created, created', shifted⟩ := observations_shifted 64
    { minExtensionUnits := 4 } (by decide : 8 ≠ 0) (by decide) (by decide)
    (by decide : 0xffffffc0 ≠ 0) (by decide) (by decide)
  cases (show Segment.create 8 = .ok segment from rfl).symm.trans created
  cases (show Segment.create 0xffffffc0 = .ok segment' from rfl).symm.trans created'
  obtain ⟨permitted', seen⟩ := shifted requests permitted
  exact ⟨permitted, permitted', by decide, by decide, seen⟩

end Client

end NextFit
