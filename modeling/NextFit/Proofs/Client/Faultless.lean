import NextFit.Proofs.Client.Observation
import NextFit.Proofs.Client.OnSegment

/-! # Nothing goes wrong for a well-behaved client

Where the memory of a heap can be filled and the arena never fails but with a refusal, a request of a
well-behaved client does not fail either, unless it is an allocation that is refused.
-/

namespace NextFit.Client

variable {A : Type} [Arena A] {Keeps : A → Ledger → Prop} {client : Client A} {ledger : Ledger}
  {free : List FreeBlock} {request : Request}

namespace Sound

theorem fill_ok {a : Allocation} {address count : Nat} (fillable : Arena.Fillable Keeps)
    (h : client.Sound Keeps ledger free) (held : a ∈ client.live) (value : UInt8)
    (low : a.address ≤ address) (high : address + count ≤ a.address + a.room (Arena.unit A)) :
    (Heap.fill address value count client.heap).result = .ok () := by
  have behind := h.behind a held
  have place := Allocation.block_address behind
  have stop := Allocation.block_stop behind
  exact h.accounts.fill_ok fillable (List.mem_map_of_mem held) value (by omega) (by omega)

theorem answer_ok_or_refused (laws : Arena.Laws Keeps) (fillable : Arena.Fillable Keeps)
    (honest : ∀ (arena : A) bytes failure, Arena.reply arena bytes = .error failure →
      ∃ reason, failure = .refused reason)
    (h : client.Sound Keeps ledger free) (permitted : client.Permits request) :
    (∃ value, client.answer request = .ok value) ∨
      ∃ size reason, request = .allocate size ∧ client.answer request = .error (.refused reason) := by
  cases request with
  | allocate size =>
      obtain ⟨result, _, _, _, allocates, done, -⟩ := h.allocate laws size
      cases result with
      | ok address => exact .inl ⟨some address, congrArg (Except.map some) done⟩
      | error failure =>
          obtain ⟨reason, rfl⟩ := allocates.refused (honest _)
          exact .inr ⟨size, reason, rfl, congrArg (Except.map some) done⟩
  | deallocate address =>
      obtain ⟨a, held, rfl⟩ := permitted
      obtain ⟨done, -⟩ := h.deallocate laws held
      exact .inl ⟨none, congrArg (Except.map fun _ => none) done⟩
  | fill address value count =>
      obtain ⟨a, held, low, high⟩ := permitted
      have done := h.fill_ok fillable held value low high
      exact .inl ⟨none, congrArg (Except.map fun _ => none) done⟩

end Sound

/-- Behind every run over a segment with a base in the address space, the break is an address, the
    free blocks and the counts can be had, and the next request is met unless an allocation is
    refused. -/
theorem faultless {segment : Segment} {config : HeapConfig} {requests : List Request}
    (addressed : segment.base < Size.bound)
    (permitted : (new segment config).PermitsAll requests) :
    let client := (new segment config).run requests
    client.heap.arena.brk < Size.bound ∧ (∃ free, client.heap.freeBlocks = .ok free) ∧
      (∃ stats, client.heap.stats = .ok stats) ∧
      ∀ request, client.Permits request → (∃ value, client.answer request = .ok value) ∨
        ∃ size reason, request = .allocate size ∧
          client.answer request = .error (.refused reason) := by
  intro client
  have laws := Segment.laws_within segment.brk segment
  have honest : ∀ (arena : Segment) bytes failure, Arena.reply arena bytes = .error failure →
      ∃ reason, failure = .refused reason :=
    fun _ _ _ answer => ⟨_, Segment.reply_error answer⟩
  obtain ⟨ledger, free, sound⟩ := exists_sound_within permitted
  refine ⟨?_, ⟨free, sound.freeBlocks_eq laws⟩, ⟨_, sound.stats_eq laws⟩, ?_⟩
  · have base : client.heap.arena.base = segment.base := sound.accounts.holds.keeps.base
    have words : UInt32.size < Size.bound := by decide
    rw [Segment.brk]
    cases client.heap.arena.addressable with
    | inl empty => omega
    | inr bound => omega
  · exact fun request => sound.answer_ok_or_refused laws (Segment.fillable_within _ _) honest

/-- The heap has all memory up to the last address that fits a header word, and cannot grow. -/
theorem faultless_full :
    let segment : Segment := {
      base := 0xffffff00
      base_ne_zero := by decide
      base_aligned := by decide
      addressable := .inl rfl
      untouched := fun address _ => Memory.byteAt_blank address }
    let requests : List Request :=
      [.allocate 100, .allocate 136, .fill 0xfffffff0 255 16, .deallocate 0xffffff08, .allocate 97]
    let client := (new segment { minExtensionUnits := 3 }).run requests
    segment.base < Size.bound ∧ (new segment { minExtensionUnits := 3 }).PermitsAll requests ∧
      client.heap.arena.brk = UInt32.size ∧ client.heap.freeBlocks = .ok [] ∧
      ∀ request, client.Permits request → (∃ value, client.answer request = .ok value) ∨
        ∃ size reason, request = .allocate size ∧
          client.answer request = .error (.refused reason) := by
  intro segment requests client
  have addressed : segment.base < Size.bound := by decide
  have permitted : (new segment { minExtensionUnits := 3 }).PermitsAll requests := by decide
  have brk : client.heap.arena.brk = UInt32.size := by decide
  have full : client.heap.freeBlocks = .ok [] := by decide
  obtain ⟨-, -, -, answers⟩ := faultless addressed permitted
  exact ⟨addressed, permitted, brk, full, answers⟩

end NextFit.Client
