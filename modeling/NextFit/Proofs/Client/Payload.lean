import NextFit.Proofs.Client.OnSegment

/-! # What a client alone may change

The size word of a live header stands until the block is given back, and the bytes behind the header
until the client fills them, whatever else is allocated, given back or filled. A ledger knows headers
only, so for this a segment is surveyed: every eight bytes of it count as the header that they spell.
A request that spares all headers inside of a block then spares all of its bytes.
-/

namespace NextFit

namespace Segment

variable {segment : Segment} {start : Nat} {ledger : Ledger}

theorem Keeps.survey (h : Keeps start segment ledger) :
    Keeps start segment (segment.survey ledger.regions) where
  base_le := h.base_le
  follow := h.follow
  addressable := h.addressable
  header := segment.stands_survey ledger.regions

theorem Keeps.recalls_survey (h : Keeps start segment ledger) :
    ledger.Recalls (segment.survey ledger.regions) where
  regions := rfl
  header? address header known := by
    obtain ⟨inside, stands⟩ := h.header address header known
    exact Option.ite_none_right_eq_some.2 ⟨inside, congrArg some stands⟩

/-- A header spells all of its bytes. -/
theorem byteAt_eq_of_headerAt_eq {memory memory' : Memory} {address query : Nat}
    (same : headerAt memory address = headerAt memory' address) (low : address ≤ query)
    (high : query < address + unit) : memory.byteAt query = memory'.byteAt query := by
  have link : memory.readWord wordBytes address = memory'.readWord wordBytes address :=
    congrArg Header.next same
  have size : memory.readWord wordBytes (address + wordBytes) =
      memory'.readWord wordBytes (address + wordBytes) := congrArg Header.size same
  have words : unit = wordBytes + wordBytes := rfl
  have bytes : memory.read address unit = memory'.read address unit := by
    rw [words, Memory.read_add, Memory.read_add, ← Memory.encode_readWord, link,
      ← Memory.encode_readWord, size, Memory.encode_readWord, Memory.encode_readWord]
  exact Memory.byteAt_eq_of_read_eq bytes low high

/-- A block that was spared since the survey has all of its bytes still. -/
theorem Keeps.byteAt_eq {segment' : Segment} {regions : List Region} {ledger' : Ledger} {b : FreeBlock}
    {query : Nat} (h : Keeps start segment' ledger')
    (spares : Ledger.Spares unit [b] (segment.survey regions) ledger')
    (inside : segment.contains b.address (b.size * unit) = true) (byte : query ∈ b.span unit) :
    segment'.memory.byteAt query = segment.memory.byteAt query := by
  obtain ⟨low, high⟩ := byte
  simp only [FreeBlock.span, FreeBlock.stop] at low high
  have nonempty : b.size ≠ 0 := by
    intro none
    rw [none] at high
    omega
  have whole : unit ≤ b.size * unit := Nat.le_mul_of_pos_left _ (Nat.pos_of_ne_zero nonempty)
  have positive : 0 < unit := by decide
  -- Eight bytes of the block that have this one among them.
  obtain ⟨x, first, last, before, after⟩ : ∃ x, b.address ≤ x ∧ x + unit ≤ b.stop unit ∧
      x ≤ query ∧ query < x + unit := by
    rw [FreeBlock.stop]
    exact ⟨min query (b.address + b.size * unit - unit), by omega⟩
  have within : segment.contains x unit = true := by
    rw [contains_eq_true_iff] at inside ⊢
    simp only [FreeBlock.stop] at last
    omega
  have spared := (spares b List.mem_cons_self x first last).trans (if_pos within)
  exact byteAt_eq_of_headerAt_eq (h.header _ _ spared).2 before after

end Segment

namespace Client

section Beside

variable {A : Type} [Arena A] {Keeps : A → Ledger → Prop} {client : Client A} {ledger : Ledger}
  {free : List FreeBlock} {a : Allocation} {request : Request}

/-- The client, but for one allocation. -/
def without (client : Client A) (a : Allocation) : Client A :=
  { client with live := client.live.filter (·.address ≠ a.address) }

/-- Whether a client may make the requests one after the other and leave the allocation alone. -/
def PermitsAllBeside (client : Client A) (a : Allocation) : List Request → Prop
  | [] => True
  | request :: rest =>
      (client.without a).Permits request ∧ (client.step request).PermitsAllBeside a rest

instance decidablePermitsAllBeside (client : Client A) (a : Allocation) :
    (requests : List Request) → Decidable (client.PermitsAllBeside a requests)
  | [] => .isTrue trivial
  | request :: rest =>
      have := decidablePermitsAllBeside (client.step request) a rest
      inferInstanceAs (Decidable
        ((client.without a).Permits request ∧ (client.step request).PermitsAllBeside a rest))

omit [Arena A] in
theorem mem_without {c : Allocation} :
    c ∈ (client.without a).live ↔ c ∈ client.live ∧ c.address ≠ a.address := by
  simp [without]

/-- A request that concerns other allocations leaves this one, and spares its block. -/
theorem Sound.step_beside (laws : Arena.Laws Keeps) (h : client.Sound Keeps ledger free)
    (held : a ∈ client.live) (beside : (client.without a).Permits request) :
    a ∈ (client.step request).live ∧ ∃ ledger' free',
      (client.step request).Sound Keeps ledger' free' ∧
      Ledger.Spares (Arena.unit A) [a.block (Arena.unit A)] ledger ledger' := by
  cases request with
  | allocate size =>
      obtain ⟨result, ledger', rest, granted, -, -, reached⟩ := h.allocate laws size
      exact ⟨client.live_subset_allocate size held, ledger', rest.free, reached.sound,
        reached.heap.spares.single (List.mem_map_of_mem held)⟩
  | deallocate address =>
      obtain ⟨b, other, rfl⟩ := beside
      obtain ⟨mem, apart⟩ := mem_without.1 other
      obtain ⟨-, live, ledger', reached⟩ := h.deallocate laws mem
      have kept : a ∈ client.live.filter (·.address ≠ b.address) := by simp [held, apart.symm]
      exact ⟨live ▸ kept, ledger', _, reached.sound,
        reached.heap.spares.single (List.mem_map_of_mem kept)⟩
  | fill address value count =>
      obtain ⟨b, other, low, high⟩ := beside
      obtain ⟨mem, apart⟩ := mem_without.1 other
      obtain ⟨ledger', reached⟩ := h.fill laws mem value low high
      have kept : a ∈ client.live.filter (·.address ≠ b.address) := by simp [held, apart.symm]
      exact ⟨held, ledger', _, reached.sound,
        reached.heap.spares.single (List.mem_map_of_mem kept)⟩

end Beside

variable {client : Client Segment} {start : Nat} {ledger : Ledger} {free : List FreeBlock}
  {a : Allocation} {request : Request}

/-- The size word of the allocation's header and the bytes behind the header. -/
def ownBytes (client : Client Segment) (a : Allocation) : Except Fault (List UInt8) :=
  client.heap.arena.readBytes (a.address - Segment.wordBytes)
    (Segment.wordBytes + a.room Segment.unit)

namespace Sound

/-- These bytes are bytes of the block. -/
theorem own_byte {Keeps : Segment → Ledger → Prop} {query : Nat}
    (h : client.Sound Keeps ledger free) (held : a ∈ client.live)
    (low : a.address - Segment.wordBytes ≤ query)
    (high : query < a.address - Segment.wordBytes + (Segment.wordBytes + a.room Segment.unit)) :
    query ∈ (a.block Segment.unit).span Segment.unit := by
  obtain ⟨word, payload, stop⟩ := h.block_place held
  simp only [Region.mem_def, FreeBlock.span]
  omega

theorem ownBytes_eq_read (h : client.Sound (Segment.Keeps start) ledger free)
    (held : a ∈ client.live) :
    client.ownBytes a = .ok (client.heap.arena.memory.read (a.address - Segment.wordBytes)
      (Segment.wordBytes + a.room Segment.unit)) := by
  obtain ⟨word, payload, stop⟩ := h.block_place held
  exact if_pos (h.contains_block held (by omega) (by omega))

theorem ownBytes_eq (h : client.Sound (Segment.Keeps start) ledger free) (held : a ∈ client.live) :
    ∃ payload, payload.length = a.room Segment.unit ∧ client.ownBytes a =
      .ok (LittleEndian.encode Segment.wordBytes (a.units Segment.unit) ++ payload) := by
  obtain ⟨-, payload, -⟩ := h.block_place held
  refine ⟨client.heap.arena.memory.read a.address (a.room Segment.unit), Memory.length_read _ _ _, ?_⟩
  rw [h.ownBytes_eq_read held, Memory.read_add, ← Memory.encode_readWord, h.size_word held, payload]

theorem ownBytes_step (h : client.Sound (Segment.Keeps start) ledger free) (held : a ∈ client.live)
    (beside : (client.without a).Permits request) :
    a ∈ (client.step request).live ∧ (client.step request).ownBytes a = client.ownBytes a ∧
      ∃ ledger' free', (client.step request).Sound (Segment.Keeps start) ledger' free' := by
  have keeps := h.accounts.holds.keeps
  obtain ⟨held', ledger', free', sound, spares⟩ :=
    (h.recast keeps.recalls_survey keeps.survey).step_beside (Segment.laws start) held beside
  refine ⟨held', ?_, ledger', free', sound⟩
  rw [h.ownBytes_eq_read held, sound.ownBytes_eq_read held']
  apply congrArg Except.ok
  apply Memory.read_congr
  intro query low high
  exact sound.accounts.holds.keeps.byteAt_eq spares
    (h.contains_block held (Nat.le_refl _) (Nat.le_refl _)) (h.own_byte held low high)

theorem ownBytes_run {more : List Request} (h : client.Sound (Segment.Keeps start) ledger free)
    (held : a ∈ client.live) (beside : client.PermitsAllBeside a more) :
    a ∈ (client.run more).live ∧ (client.run more).ownBytes a = client.ownBytes a := by
  induction more generalizing client ledger free with
  | nil => exact ⟨held, rfl⟩
  | cons request rest ih =>
      obtain ⟨held', same, ledger', free', sound⟩ := h.ownBytes_step held beside.1
      obtain ⟨kept, later⟩ := ih sound held' beside.2
      exact ⟨kept, later.trans same⟩

end Sound

/-- As long as a client leaves an allocation alone, it stays live, its size word tells its units, and
    its payload is not touched. -/
theorem payload_unchanged {segment : Segment} {config : HeapConfig} {requests more : List Request}
    (permitted : (new segment config).PermitsAll requests)
    (held : a ∈ ((new segment config).run requests).live)
    (beside : ((new segment config).run requests).PermitsAllBeside a more) :
    let client := (new segment config).run requests
    a ∈ (client.run more).live ∧ ∃ payload, payload.length = a.room Segment.unit ∧
      client.ownBytes a =
        .ok (LittleEndian.encode Segment.wordBytes (a.units Segment.unit) ++ payload) ∧
      (client.run more).ownBytes a =
        .ok (LittleEndian.encode Segment.wordBytes (a.units Segment.unit) ++ payload) := by
  intro client
  obtain ⟨start, ledger, free, sound⟩ := orderly_run permitted
  obtain ⟨kept, same⟩ := sound.ownBytes_run held beside
  obtain ⟨payload, length, bytes⟩ := sound.ownBytes_eq held
  exact ⟨kept, payload, length, bytes, same.trans bytes⟩

/-- The memory right in front of a payload is given back, used again and filled, and the heap grows
    right behind it. -/
theorem payload_unchanged_between :
    let client := (new Segment.default { minExtensionUnits := 16 }).run
      [.allocate 20, .allocate 9, .fill 0x10040068 171 24]
    let more : List Request :=
      [.deallocate 0x10040050, .allocate 3, .fill 0x10040058 255 8, .allocate 400]
    (new Segment.default { minExtensionUnits := 16 }).PermitsAll
        [.allocate 20, .allocate 9, .fill 0x10040068 171 24] ∧
      { address := 0x10040068, size := 20 } ∈ client.live ∧
      client.PermitsAllBeside { address := 0x10040068, size := 20 } more ∧
      (client.run more).ownBytes { address := 0x10040068, size := 20 } =
        .ok ([4, 0, 0, 0] ++ List.replicate 24 171) := by
  intro client more
  have permitted : (new Segment.default { minExtensionUnits := 16 }).PermitsAll
      [.allocate 20, .allocate 9, .fill 0x10040068 171 24] := by decide
  have held : { address := 0x10040068, size := 20 } ∈ client.live := by decide
  have beside : client.PermitsAllBeside { address := 0x10040068, size := 20 } more := by decide
  have bytes : client.ownBytes { address := 0x10040068, size := 20 } =
      .ok ([4, 0, 0, 0] ++ List.replicate 24 171) := by decide
  obtain ⟨-, payload, -, first, later⟩ := payload_unchanged permitted held beside
  exact ⟨permitted, held, beside, later.trans (first.symm.trans bytes)⟩

end Client

end NextFit
