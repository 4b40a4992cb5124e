import NextFit.Proofs.Heap.Lend

/-! # Well-behaved clients

A client allocates as it likes, gives back only addresses that it holds, and writes only to memory
behind such addresses, there to all that its block has room for (`Permits`). `Client.Sound` is what
holds of a client and its heap between two requests: the heap accounts for just the blocks that the
client holds. One request keeps it, so it holds behind every run.
-/

namespace NextFit

/-- An address that was handed out, with the size that was asked for. -/
structure Allocation where
  address : Nat
  size : Nat
  deriving Repr, DecidableEq

namespace Allocation

/-- The size in whole units, and one for the header. -/
def units (unit : Nat) (allocation : Allocation) : Nat :=
  allocation.size ⌈/⌉ unit + 1

/-- The header lies right in front of the address. -/
def block (unit : Nat) (allocation : Allocation) : FreeBlock :=
  { address := allocation.address - unit, size := allocation.units unit }

/-- How many bytes there are behind the header. -/
def room (unit : Nat) (allocation : Allocation) : Nat :=
  allocation.size ⌈/⌉ unit * unit

theorem block_address {unit : Nat} {allocation : Allocation} (behind : unit ≤ allocation.address) :
    (allocation.block unit).address + unit = allocation.address :=
  Nat.sub_add_cancel behind

theorem block_stop {unit : Nat} {allocation : Allocation} (behind : unit ≤ allocation.address) :
    (allocation.block unit).stop unit = allocation.address + allocation.room unit := by
  have start := block_address behind
  simp only [FreeBlock.stop, block, units, room, Nat.add_mul, Nat.one_mul] at start ⊢
  omega

/-- There is room for all bytes that were asked for. -/
theorem size_le_room {unit : Nat} (positive : 0 < unit) (allocation : Allocation) :
    allocation.size ≤ allocation.room unit := by
  have enough : allocation.size ≤ unit * (allocation.size ⌈/⌉ unit) := le_smul_ceilDiv positive
  rwa [Nat.mul_comm] at enough

theorem payload_le {unit : Nat} {allocation : Allocation} (positive : 0 < unit)
    (behind : unit ≤ allocation.address) :
    allocation.address + allocation.size ≤ (allocation.block unit).stop unit := by
  rw [block_stop behind]
  exact Nat.add_le_add_left (size_le_room positive allocation) _

end Allocation

/-- A heap and what its client holds. -/
structure Client (A : Type) where
  heap : Heap A
  live : List Allocation := []

inductive Request where
  | allocate (size : Nat)
  | deallocate (address : Nat)
  | fill (address : Nat) (value : UInt8) (count : Nat)
  deriving Repr, DecidableEq

namespace Client

variable {A : Type} [Arena A]

/-- A client of a heap that has asked its arena for nothing yet. -/
def new (arena : A) (config : HeapConfig) : Client A :=
  { heap := .new arena config }

def step (client : Client A) : Request → Client A
  | .allocate size =>
      let outcome := Heap.allocate size client.heap
      { heap := outcome.state
        live :=
          match outcome.result with
          | .ok address => { address, size } :: client.live
          | .error _ => client.live }
  | .deallocate address =>
      let outcome := Heap.deallocate address client.heap
      { heap := outcome.state
        live :=
          match outcome.result with
          | .ok _ => client.live.filter (·.address ≠ address)
          | .error _ => client.live }
  | .fill address value count =>
      { client with heap := (Heap.fill address value count client.heap).state }

def run (client : Client A) (requests : List Request) : Client A :=
  requests.foldl step client

/-- Whether a well-behaved client may make the request. It may use its blocks to the last byte. -/
def Permits (client : Client A) : Request → Prop
  | .allocate _ => True
  | .deallocate address => ∃ a ∈ client.live, a.address = address
  | .fill address _ count =>
      ∃ a ∈ client.live, a.address ≤ address ∧ address + count ≤ a.address + a.room (Arena.unit A)

/-- Whether a well-behaved client may make the requests one after the other. -/
def PermitsAll (client : Client A) : List Request → Prop
  | [] => True
  | request :: rest => client.Permits request ∧ (client.step request).PermitsAll rest

instance decidablePermits (client : Client A) :
    (request : Request) → Decidable (client.Permits request)
  | .allocate _ => .isTrue trivial
  | .deallocate address => inferInstanceAs (Decidable (∃ a ∈ client.live, a.address = address))
  | .fill address _ count => inferInstanceAs (Decidable (∃ a ∈ client.live,
      a.address ≤ address ∧ address + count ≤ a.address + a.room (Arena.unit A)))

instance decidablePermitsAll (client : Client A) :
    (requests : List Request) → Decidable (client.PermitsAll requests)
  | [] => .isTrue trivial
  | request :: rest =>
      have := decidablePermitsAll (client.step request) rest
      inferInstanceAs (Decidable (client.Permits request ∧ (client.step request).PermitsAll rest))

/-- The blocks of what the client holds. -/
def blocks (client : Client A) : List FreeBlock :=
  client.live.map (Allocation.block (Arena.unit A))

theorem live_subset_allocate (client : Client A) (size : Nat) :
    client.live ⊆ (client.step (.allocate size)).live := by
  intro a held
  simp only [step]
  split
  · exact List.mem_cons_of_mem _ held
  · exact held

theorem run_append (client : Client A) (requests more : List Request) :
    client.run (requests ++ more) = (client.run requests).run more :=
  List.foldl_append

theorem permitsAll_append {client : Client A} {requests more : List Request} :
    client.PermitsAll (requests ++ more) ↔
      client.PermitsAll requests ∧ (client.run requests).PermitsAll more := by
  induction requests generalizing client with
  | nil => simp [PermitsAll, run]
  | cons request rest ih => simp [PermitsAll, run, ih, and_assoc]

variable {Keeps : A → Ledger → Prop} {client : Client A} {ledger : Ledger} {free : List FreeBlock}

/-- The heap accounts for what the client holds. -/
structure Sound (Keeps : A → Ledger → Prop) (client : Client A) (ledger : Ledger)
    (free : List FreeBlock) : Prop where
  accounts : client.heap.Accounts Keeps ledger free client.blocks
  behind : ∀ a ∈ client.live, Arena.unit A ≤ a.address

namespace Sound

theorem new {arena : A} (keeps : Keeps arena {}) (config : HeapConfig) :
    (new arena config).Sound Keeps {} [] where
  accounts := .new keeps config
  behind := by simp [Client.new]

theorem recast {Keeps' : A → Ledger → Prop} {ledger' : Ledger} (h : client.Sound Keeps ledger free)
    (recalls : ledger.Recalls ledger') (keeps : Keeps' client.heap.arena ledger') :
    client.Sound Keeps' ledger' free :=
  ⟨h.accounts.recast recalls keeps, h.behind⟩

/-- Nobody else holds the address of an allocation. -/
theorem perm_filter {a : Allocation} (laws : Arena.Laws Keeps) (h : client.Sound Keeps ledger free)
    (mem : a ∈ client.live) :
    client.live.Perm (a :: client.live.filter (·.address ≠ a.address)) := by
  have disjoint := (List.pairwise_append.1 (h.accounts.pairwise_disjoint laws)).2.1
  have nonempty := h.accounts.nonempty
  rw [blocks] at disjoint nonempty
  obtain ⟨before, after, split⟩ := List.append_of_mem mem
  rw [split] at disjoint nonempty ⊢
  rw [List.map_append, List.map_cons, List.pairwise_middle FreeBlock.Disjoint.symm] at disjoint
  have others : ∀ c ∈ before ++ after, c.address ≠ a.address := by
    intro c other same
    have apart := (List.pairwise_cons.1 disjoint).1 (c.block (Arena.unit A))
      (by rw [← List.map_append]; exact List.mem_map_of_mem other)
    apply apart.address_ne laws.unit_pos (Nat.succ_pos _) (Nat.succ_pos _)
    simp only [Allocation.block, same]
  have kept : (before ++ a :: after).filter (·.address ≠ a.address) = before ++ after := by
    rw [List.filter_append, List.filter_cons_of_neg (by simp), ← List.filter_append,
      List.filter_eq_self]
    simpa using others
  rw [kept]
  exact List.perm_middle

theorem freeBlocks_eq (laws : Arena.Laws Keeps) (h : client.Sound Keeps ledger free) :
    client.heap.freeBlocks = .ok free :=
  h.accounts.holds.blocks_eq laws

end Sound

/-- What a request comes to that started with `ledger` and had to leave the blocks in `kept` alone. -/
structure Reaches (Keeps : A → Ledger → Prop) (ledger : Ledger) (kept : List FreeBlock)
    (client' : Client A) (ledger' : Ledger) (layout : Layout) (granted : List Region) : Prop where
  heap : Heap.Reaches Keeps ledger kept client'.heap ledger' layout client'.blocks granted
  behind : ∀ a ∈ client'.live, Arena.unit A ≤ a.address

theorem Reaches.sound {kept : List FreeBlock} {ledger' : Ledger} {layout : Layout}
    {granted : List Region} (h : client.Reaches Keeps ledger kept ledger' layout granted) :
    client.Sound Keeps ledger' layout.free :=
  ⟨h.heap.accounts, h.behind⟩

namespace Sound

/-- An allocation that fails leaves the accounts and the layout of the heap as they were. -/
theorem allocate_fails {size : Nat} {failure : Failure} (laws : Arena.Laws Keeps)
    (h : client.Sound Keeps ledger free)
    (failed : (Heap.allocate size client.heap).result = .error failure) :
    Heap.Fails Keeps client.heap ledger free client.blocks (client.step (.allocate size)).heap := by
  rcases h.accounts.allocate laws size with
    ⟨failure, heap', -, ⟨-, rfl⟩, fails⟩ | ⟨heap', ledger', block, rest, granted, -, ⟨done, -⟩, -⟩
  · exact fails
  · cases failed.symm.trans done

/-- An allocation ends as the layout and the replies of the arena say, whether it fails or not. -/
theorem allocate (laws : Arena.Laws Keeps) (h : client.Sound Keeps ledger free) (size : Nat) :
    ∃ result ledger' rest granted,
      (client.heap.layout free).Allocates (Arena.unit A) (Arena.reply client.heap.arena) size result
        rest granted ∧
      (Heap.allocate size client.heap).result = result ∧
      (client.step (.allocate size)).Reaches Keeps ledger client.blocks ledger' rest granted := by
  rcases h.accounts.allocate laws size with
    ⟨failure, heap', allocates, ⟨failed, rfl⟩, fails⟩ |
    ⟨heap', ledger', block, rest, granted, allocates, ⟨done, rfl⟩, reached⟩
  · refine ⟨.error failure, ledger, _, [], allocates, failed, ?_, ?_⟩ <;>
      simp only [Client.step, failed]
    · exact ⟨fails.accounts, fails.layout, (List.append_nil _).symm, .refl _ _ _, .refl _ _⟩
    · exact h.behind
  · refine ⟨.ok (block + Arena.unit A), ledger', rest, granted, allocates, done, ?_, ?_⟩ <;>
      simp only [Client.step, done]
    · simpa [blocks, Allocation.block, Allocation.units] using reached
    · simpa using h.behind

theorem deallocate {a : Allocation} (laws : Arena.Laws Keeps) (h : client.Sound Keeps ledger free)
    (mem : a ∈ client.live) :
    (Heap.deallocate a.address client.heap).result = .ok () ∧
    (client.step (.deallocate a.address)).live = client.live.filter (·.address ≠ a.address) ∧
    ∃ ledger', (client.step (.deallocate a.address)).Reaches Keeps ledger
      ((client.live.filter (·.address ≠ a.address)).map (Allocation.block (Arena.unit A))) ledger'
      ((client.heap.layout free).release (Arena.unit A) (a.block (Arena.unit A))) [] := by
  have split := h.perm_filter laws mem
  obtain ⟨heap', ledger', ⟨done, rfl⟩, reached⟩ := Heap.Accounts.deallocate laws
    (h.accounts.perm (split.map (Allocation.block (Arena.unit A))).symm)
  rw [Allocation.block_address (h.behind a mem)] at done reached
  refine ⟨done, ?_, ledger', ?_⟩ <;> simp only [Client.step, done]
  exact ⟨reached, fun c kept => h.behind c (List.mem_of_mem_filter kept)⟩

theorem fill {a : Allocation} {address count : Nat} (laws : Arena.Laws Keeps)
    (h : client.Sound Keeps ledger free) (mem : a ∈ client.live) (value : UInt8)
    (low : a.address ≤ address) (high : address + count ≤ a.address + a.room (Arena.unit A)) :
    ∃ ledger', (client.step (.fill address value count)).Reaches Keeps ledger
      ((client.live.filter (·.address ≠ a.address)).map (Allocation.block (Arena.unit A))) ledger'
      (client.heap.layout free) [] := by
  have behind := h.behind a mem
  have split := (h.perm_filter laws mem).map (Allocation.block (Arena.unit A))
  rw [← Allocation.block_address behind] at low
  rw [← Allocation.block_stop behind] at high
  obtain ⟨result, heap', ledger', ⟨-, rfl⟩, reached⟩ :=
    (h.accounts.perm split.symm).fill laws value low high
  exact ⟨ledger', { reached with accounts := reached.accounts.perm split }, h.behind⟩

/-- A permitted request is accounted for, and needs one extension at most. -/
theorem reaches {request : Request} (laws : Arena.Laws Keeps) (h : client.Sound Keeps ledger free)
    (permitted : client.Permits request) :
    ∃ kept ledger' layout granted,
      (client.step request).Reaches Keeps ledger kept ledger' layout granted ∧ granted.length ≤ 1 := by
  cases request with
  | allocate size =>
      obtain ⟨result, ledger', rest, granted, allocates, -, reached⟩ := h.allocate laws size
      exact ⟨_, ledger', rest, granted, reached, allocates.length_granted_le⟩
  | deallocate address =>
      obtain ⟨a, mem, rfl⟩ := permitted
      obtain ⟨-, -, ledger', reached⟩ := h.deallocate laws mem
      exact ⟨_, ledger', _, [], reached, Nat.zero_le _⟩
  | fill address value count =>
      obtain ⟨a, mem, low, high⟩ := permitted
      obtain ⟨ledger', reached⟩ := h.fill laws mem value low high
      exact ⟨_, ledger', _, [], reached, Nat.zero_le _⟩

/-- One request keeps the accounts. -/
theorem step {request : Request} (laws : Arena.Laws Keeps) (h : client.Sound Keeps ledger free)
    (permitted : client.Permits request) :
    ∃ ledger' free', (client.step request).Sound Keeps ledger' free' ∧
      ledger.regions <+: ledger'.regions := by
  obtain ⟨kept, ledger', layout, granted, reached, -⟩ := h.reaches laws permitted
  exact ⟨ledger', layout.free, reached.sound, granted, reached.heap.regions.symm⟩

/-- Every run keeps the accounts. -/
theorem run {requests : List Request} (laws : Arena.Laws Keeps)
    (h : client.Sound Keeps ledger free) (permitted : client.PermitsAll requests) :
    ∃ ledger' free', (client.run requests).Sound Keeps ledger' free' ∧
      ledger.regions <+: ledger'.regions := by
  induction requests generalizing client ledger free with
  | nil => exact ⟨ledger, free, h, List.prefix_refl _⟩
  | cons request rest ih =>
      obtain ⟨ledger₁, free₁, sound, first⟩ := h.step laws permitted.1
      obtain ⟨ledger', free', sound', later⟩ := ih sound permitted.2
      exact ⟨ledger', free', sound', first.trans later⟩

end Sound

end Client

end NextFit
