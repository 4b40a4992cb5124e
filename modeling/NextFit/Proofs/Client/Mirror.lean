import NextFit.Proofs.Heap.Relocation
import NextFit.Proofs.Client.Faultless
import NextFit.Proofs.Client.Observation

/-! # Clients in different places

Two clients may hold the same at different places, over arenas of different kinds. If the arenas reply
alike but for the place, then so do the heaps: whatever is asked of both, one of them mirrors the other
one.
-/

namespace NextFit

def Allocation.mapAddresses (rename : Nat → Nat) (allocation : Allocation) : Allocation :=
  { allocation with address := rename allocation.address }

def Request.mapAddresses (rename : Nat → Nat) : Request → Request
  | .allocate size => .allocate size
  | .deallocate address => .deallocate (rename address)
  | .fill address value count => .fill (rename address) value count

namespace Client

variable {A B : Type} [Arena A] [Arena B] {Keeps : A → Ledger → Prop} {Keeps' : B → Ledger → Prop}
  {move : Relocation} {client : Client A} {other : Client B} {ledger ledger' : Ledger}
  {free : List FreeBlock} {request : Request} {a c : Allocation}

namespace Sound

variable (laws : Arena.Laws Keeps) (h : client.Sound Keeps ledger free)
  (low : ∀ region ∈ ledger.regions, move.base ≤ region.start)

include laws h low

theorem base_le {b : FreeBlock} (mem : b ∈ free ++ client.blocks) : move.base ≤ b.address :=
  (h.accounts.holds.wellFormed.block_within laws.unit_pos (h.accounts.block_nonempty b mem)
    (h.accounts.cells_subset mem)
    fun region granted => ⟨low region granted, h.accounts.holds.wellFormed.stop_le region granted⟩).1

theorem inside : (client.heap.layout free).Inside move where
  free b mem := h.base_le laws low (List.mem_append_left _ mem)
  start := by
    rcases h.accounts.holds.node with sentinel | ⟨b, mem, same⟩
    · exact .inl sentinel
    · have bound := h.base_le laws low (List.mem_append_left _ mem)
      rw [same] at bound
      exact .inr bound

theorem live_le (held : a ∈ client.live) : move.base + Arena.unit A ≤ a.address := by
  have place := Allocation.block_address (h.behind a held)
  have bound := h.base_le laws low (List.mem_append_right _ (List.mem_map_of_mem held))
  omega

theorem block_mapAddresses (held : a ∈ client.live) :
    (a.mapAddresses move.apply).block (Arena.unit A) =
      (a.block (Arena.unit A)).mapAddresses move.apply := by
  have behind := h.live_le laws low held
  have shifted := Relocation.apply_add (Nat.le_sub_of_add_le behind) (Arena.unit A)
  rw [Nat.sub_add_cancel (Nat.le_of_add_left_le behind)] at shifted
  simp only [Allocation.block, Allocation.mapAddresses, FreeBlock.mapAddresses, shifted,
    Nat.add_sub_cancel]
  rfl

end Sound

/-- The second client holds what the first one holds, where the memory has moved to. -/
structure Mirrors (move : Relocation) (Keeps : A → Ledger → Prop) (Keeps' : B → Ledger → Prop)
    (client : Client A) (other : Client B) (ledger ledger' : Ledger) (free : List FreeBlock) :
    Prop where
  sound : client.Sound Keeps ledger free
  sound' : other.Sound Keeps' ledger' (FreeBlock.relocate move free)
  layout : other.heap.layout (FreeBlock.relocate move free) = (client.heap.layout free).relocate move
  live : other.live = client.live.map (Allocation.mapAddresses move.apply)

namespace Mirrors

/-- Both clients are told the same but for the place, and the one still mirrors the other one. -/
def Advance (move : Relocation) (Keeps : A → Ledger → Prop) (Keeps' : B → Ledger → Prop)
    (client : Client A) (other : Client B) (request : Request) : Prop :=
  other.answer (request.mapAddresses move.apply) = (client.answer request).map (·.map move.apply) ∧
  ∃ ledger ledger' free, Mirrors move Keeps Keeps' (client.step request)
    (other.step (request.mapAddresses move.apply)) ledger ledger' free

variable (units : Arena.unit B = Arena.unit A) (laws : Arena.Laws Keeps) (laws' : Arena.Laws Keeps')
  (h : Mirrors move Keeps Keeps' client other ledger ledger' free)
  (low : ∀ region ∈ ledger.regions, move.base ≤ region.start)

omit [Arena A] [Arena B] in
theorem room_mapAddresses (rename : Nat → Nat) (a : Allocation) (unit : Nat) :
    (a.mapAddresses rename).room unit = a.room unit :=
  rfl

include h

/-- Both heaps have been granted equally much. -/
theorem units_eq : ledger'.units (Arena.unit B) = ledger.units (Arena.unit A) := by
  rw [← h.sound'.accounts.arenaUnits, ← h.sound.accounts.arenaUnits]
  exact congrArg Layout.arenaUnits h.layout

theorem mem_live (held : a ∈ client.live) : a.mapAddresses move.apply ∈ other.live :=
  h.live ▸ List.mem_map_of_mem held

include laws low

theorem apply_live (held : a ∈ client.live) {address : Nat} (high : a.address ≤ address) :
    move.apply address + a.address = address + move.apply a.address := by
  have bound := h.sound.live_le laws low held
  have moved := Relocation.apply_of_le (Nat.le_of_add_right_le bound)
  have moved' := Relocation.apply_of_le (Nat.le_trans (Nat.le_of_add_right_le bound) high)
  omega

include units

theorem permits (permitted : client.Permits request) :
    other.Permits (request.mapAddresses move.apply) := by
  cases request with
  | allocate size => trivial
  | deallocate address =>
      obtain ⟨a, held, rfl⟩ := permitted
      exact ⟨_, h.mem_live held, rfl⟩
  | fill address value count =>
      obtain ⟨a, held, first, last⟩ := permitted
      have distance := h.apply_live laws low held first
      refine ⟨_, h.mem_live held, ?_, ?_⟩
      · simp only [Allocation.mapAddresses]
        omega
      · rw [room_mapAddresses, units]
        simp only [Allocation.mapAddresses]
        omega

include laws'

theorem allocate (inside : ∀ bytes base, Arena.reply client.heap.arena bytes = .ok base →
      move.base ≤ base)
    (same : ∀ bytes, Arena.reply other.heap.arena bytes =
      (Arena.reply client.heap.arena bytes).map move.apply) (size : Nat) :
    Advance move Keeps Keeps' client other (.allocate size) := by
  obtain ⟨result, after, rest, granted, allocates, done, reached⟩ := h.sound.allocate laws size
  obtain ⟨result', after', rest', granted', allocates', done', reached'⟩ :=
    h.sound'.allocate laws' size
  obtain ⟨_, moved⟩ := allocates.relocate (h.sound.inside laws low) same inside
  rw [h.layout, units] at allocates'
  obtain ⟨rfl, rfl, -⟩ := moved.unique allocates'
  refine ⟨?_, after, after', rest.free, reached.sound, reached'.sound, ?_, ?_⟩
  · simp only [answer, Request.mapAddresses, done, done']
    cases result <;> rfl
  · exact reached'.heap.layout.trans (congrArg (Layout.relocate move) reached.heap.layout.symm)
  · simp only [Request.mapAddresses, Client.step, done, done', h.live]
    cases result <;> rfl

theorem deallocate (held : a ∈ client.live) :
    Advance move Keeps Keeps' client other (.deallocate a.address) := by
  have held' := h.mem_live held
  obtain ⟨done, live, after, reached⟩ := h.sound.deallocate laws held
  obtain ⟨done', live', after', reached'⟩ := h.sound'.deallocate laws' held'
  have bound := h.sound.base_le laws low (List.mem_append_right _ (List.mem_map_of_mem held))
  have layout : ((client.heap.layout free).relocate move).release (Arena.unit A)
      ((a.mapAddresses move.apply).block (Arena.unit A)) =
        ((client.heap.layout free).release (Arena.unit A) (a.block (Arena.unit A))).relocate move := by
    rw [h.sound.block_mapAddresses laws low held]
    exact Layout.release_relocate (h.sound.inside laws low) bound
  rw [h.layout, units, layout] at reached'
  refine ⟨?_, after, after', _, reached.sound, reached'.sound, ?_, ?_⟩
  · simp only [answer, Request.mapAddresses, done]
    rw [show move.apply a.address = (a.mapAddresses move.apply).address from rfl, done']
    rfl
  · exact reached'.heap.layout.trans (congrArg (Layout.relocate move) reached.heap.layout.symm)
  · rw [live, Request.mapAddresses]
    refine live'.trans ?_
    rw [h.live, List.filter_map]
    congr 1
    apply List.filter_congr
    intro c kept
    have place : move.apply c.address ≠ move.apply a.address ↔ c.address ≠ a.address :=
      not_congr (Relocation.apply_eq_iff
        (.inr (Nat.le_of_add_right_le (h.sound.live_le laws low kept)))
        (.inr (Nat.le_of_add_right_le (h.sound.live_le laws low held))))
    exact decide_eq_decide.2 place

theorem fill {address count : Nat} (fillable : Arena.Fillable Keeps)
    (fillable' : Arena.Fillable Keeps') (held : a ∈ client.live) (value : UInt8)
    (first : a.address ≤ address) (last : address + count ≤ a.address + a.room (Arena.unit A)) :
    Advance move Keeps Keeps' client other (.fill address value count) := by
  have held' := h.mem_live held
  have distance := h.apply_live laws low held first
  have room := room_mapAddresses move.apply a (Arena.unit B)
  rw [units] at room
  have first' : (a.mapAddresses move.apply).address ≤ move.apply address := by
    simp only [Allocation.mapAddresses]
    omega
  have last' : move.apply address + count ≤
      (a.mapAddresses move.apply).address + (a.mapAddresses move.apply).room (Arena.unit B) := by
    rw [units, room]
    simp only [Allocation.mapAddresses]
    omega
  obtain ⟨after, reached⟩ := h.sound.fill laws held value first last
  obtain ⟨after', reached'⟩ := h.sound'.fill laws' held' value first' last'
  refine ⟨?_, after, after', free, reached.sound, reached'.sound, ?_, h.live⟩
  · simp only [answer, Request.mapAddresses, h.sound.fill_ok fillable held value first last,
      h.sound'.fill_ok fillable' held' value first' last']
    rfl
  · exact reached'.heap.layout.trans
      (h.layout.trans (congrArg (Layout.relocate move) reached.heap.layout.symm))

theorem advance (fillable : Arena.Fillable Keeps) (fillable' : Arena.Fillable Keeps')
    (inside : ∀ bytes base, Arena.reply client.heap.arena bytes = .ok base → move.base ≤ base)
    (same : ∀ bytes, Arena.reply other.heap.arena bytes =
      (Arena.reply client.heap.arena bytes).map move.apply)
    (permitted : client.Permits request) :
    Advance move Keeps Keeps' client other request := by
  cases request with
  | allocate size => exact h.allocate units laws laws' low inside same size
  | deallocate address =>
      obtain ⟨a, held, rfl⟩ := permitted
      exact h.deallocate units laws laws' low held
  | fill address value count =>
      obtain ⟨a, held, first, last⟩ := permitted
      exact h.fill units laws laws' low fillable fillable' held value first last

omit low units in
theorem freeBlocks_eq : client.heap.freeBlocks = .ok free ∧
    other.heap.freeBlocks = .ok (FreeBlock.relocate move free) :=
  ⟨h.sound.freeBlocks_eq laws, h.sound'.freeBlocks_eq laws'⟩

omit low units in
theorem stats_eq : other.heap.stats = client.heap.stats := by
  have arenaUnits : other.heap.arenaUnits = client.heap.arenaUnits :=
    congrArg Layout.arenaUnits h.layout
  have extensions : other.heap.extensions = client.heap.extensions :=
    congrArg Layout.extensions h.layout
  have freeUnits : FreeBlock.units (FreeBlock.relocate move free) = FreeBlock.units free := by
    rw [FreeBlock.units_eq_sum, FreeBlock.units_eq_sum, FreeBlock.relocate, List.map_map]
    rfl
  rw [h.sound'.stats_eq laws', h.sound.stats_eq laws, arenaUnits, extensions, freeUnits,
    FreeBlock.relocate, List.length_map]

end Mirrors

end Client

end NextFit
