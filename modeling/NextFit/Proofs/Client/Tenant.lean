import NextFit.Proofs.Client.Observation
import NextFit.Proofs.Client.Payload

/-! # One heap of several over a segment

A segment that serves several heaps keeps for each of them what it would keep for a heap that has it
to itself, except that the regions of the heap are only some of those that follow one another. A
request to one heap changes no bytes of any block that lies outside of the heap's own regions. A heap
whose regions have their bytes still has lost nothing, wherever the break stands by now.
-/

namespace NextFit

/-- Forget the headers of all blocks but these. -/
def Ledger.only (ledger : Ledger) (blocks : List FreeBlock) : Ledger :=
  { ledger with
    header? := fun address =>
      if address ∈ blocks.map (·.address) then ledger.header? address else none }

theorem Ledger.header?_only {ledger : Ledger} {blocks : List FreeBlock} {b : FreeBlock}
    (mem : b ∈ blocks) : (ledger.only blocks).header? b.address = ledger.header? b.address :=
  if_pos (List.mem_map_of_mem mem)

namespace Segment

variable {segment segment' : Segment} {start : Nat} {all own granted : List Region} {ledger : Ledger}

/-- The memory that a segment was grown by on its way to another state. -/
def gained (segment segment' : Segment) : List Region :=
  if segment.brk < segment'.brk then [{ start := segment.brk, stop := segment'.brk }] else []

theorem gained_eq (follow : Region.Follow segment.brk granted segment'.brk)
    (few : granted.length ≤ 1) (nonempty : ∀ region ∈ granted, region.start < region.stop) :
    segment.gained segment' = granted := by
  match granted, follow, few with
  | [], same, _ => exact if_neg (Nat.not_lt.2 (Nat.le_of_eq same.symm))
  | [region], ⟨start, _, stop⟩, _ =>
      have less := nonempty region List.mem_cons_self
      rw [gained, ← start, ← stop, if_pos less]

/-- An extension for others changes no byte. -/
theorem Keeps.grow (bytes : Nat) (h : Keeps start segment ledger) :
    let segment' := (Segment.extend bytes segment).state
    segment'.memory = segment.memory ∧
      Keeps start segment' { ledger with regions := ledger.regions ++ segment.gained segment' } := by
  intro segment'
  have ended := Op.yields_run (Segment.extend bytes) segment
  cases answer : (Segment.extend bytes segment).result with
  | error failure =>
      rw [answer] at ended
      have same : segment' = segment := extend_error ended
      have none : segment.gained segment = [] := if_neg (Nat.lt_irrefl _)
      rw [same, none, List.append_nil]
      exact ⟨rfl, h⟩
  | ok base =>
      rw [answer] at ended
      have kept := h.extend ended
      obtain ⟨rfl, base, length, -, memory, -⟩ := extend_ok ended
      have grown : segment'.brk = segment.brk + bytes := by
        rw [brk, brk, base, length, Nat.add_assoc]
      refine ⟨memory, ?_⟩
      cases Nat.eq_zero_or_pos bytes with
      | inl none =>
          rw [none, Nat.add_zero] at grown
          have gained : segment.gained segment' = [] := if_neg (Nat.not_lt.2 (Nat.le_of_eq grown))
          rw [gained, List.append_nil]
          exact {
            base_le := kept.base_le
            follow := grown ▸ h.follow
            addressable := grown ▸ h.addressable
            header := kept.header }
      | inr some =>
          have gained : segment.gained segment' =
              [{ start := segment.brk, stop := segment.brk + bytes }] := by
            rw [gained, grown, if_pos (Nat.lt_add_of_pos_right some)]
          rw [gained]
          exact kept

/-- What a segment keeps for one heap of several that came to it when the break was at `start`. Of
    the regions that it had granted since, `own` had gone to the heap. -/
def Serves (start : Nat) (all own : List Region) (segment : Segment) (ledger : Ledger) : Prop :=
  ∃ granted, ledger.regions = own ++ granted ∧
    Keeps start segment { ledger with regions := all ++ granted }

/-- To one heap of several, a segment is as lawful as to a heap that has it to itself. -/
theorem laws_serves (start : Nat) (part : own.Sublist all) : Arena.Laws (Serves start all own) where
  unit_pos := by decide
  granted := by
    rintro segment segment' ledger bytes base ⟨granted, regions, keeps⟩ answered
    obtain ⟨nonzero, ends, fresh, kept⟩ := (laws start).granted keeps answered
    refine ⟨nonzero, ends, ?_, granted ++ [{ start := base, stop := base + bytes }], ?_, ?_⟩
    · intro region mem
      rw [regions] at mem
      exact fresh region ((part.append_right granted).subset mem)
    · rw [Ledger.grant, regions, List.append_assoc]
    · rw [← List.append_assoc]
      exact kept
  refused := by
    rintro segment segment' ledger bytes failure ⟨granted, regions, keeps⟩ answered
    exact ⟨granted, regions, (laws start).refused keeps answered⟩
  contains := by
    rintro segment ledger region address length ⟨granted, regions, keeps⟩ mem inside
    rw [regions] at mem
    exact keeps.contains ((part.append_right granted).subset mem) inside
  load := by
    rintro segment ledger address header ⟨granted, regions, keeps⟩ known
    exact (laws start).load keeps known
  store := by
    rintro segment ledger region address header ⟨granted, regions, keeps⟩ mem inside leads fits
    have wider := part.append_right granted
    rw [← regions] at wider
    have target : header.next = sentinelAddress ∨
        ∃ target ∈ all ++ granted, header.next ∈ target := by
      apply leads.imp_right
      rintro ⟨target, mem, within⟩
      exact ⟨target, wider.subset mem, within⟩
    have few := FreeBlock.units_le_of_sublist (wider.map (Region.block unit))
    obtain ⟨segment', stored, kept⟩ :=
      (laws start).store keeps (wider.subset mem) inside target (Nat.le_trans fits few)
    exact ⟨segment', stored, granted, regions, kept⟩
  fill := by
    rintro segment ledger address count value ⟨granted, regions, keeps⟩ inside
    exact ⟨granted, regions, (laws start).fill keeps inside⟩

namespace Serves

theorem keeps (h : Serves start all own segment ledger) (regions : ledger.regions = own ++ granted) :
    Keeps start segment { ledger with regions := all ++ granted } := by
  obtain ⟨granted', same, keeps⟩ := h
  rwa [List.append_cancel_left (regions.symm.trans same)]

theorem survey (h : Serves start all own segment ledger) :
    Serves start all own segment (segment.survey ledger.regions) := by
  obtain ⟨granted, regions, keeps⟩ := h
  exact ⟨granted, regions, keeps.survey⟩

theorem recalls_survey (h : Serves start all own segment ledger) :
    ledger.Recalls (segment.survey ledger.regions) := by
  obtain ⟨granted, regions, keeps⟩ := h
  exact ⟨rfl, keeps.recalls_survey.header?⟩

/-- Between two turns, the regions are just those that were granted. -/
theorem keeps_all (h : Serves start all own segment ledger) (regions : ledger.regions = own) :
    Keeps start segment { ledger with regions := all } := by
  have keeps := h.keeps (regions.trans (List.append_nil own).symm)
  rwa [List.append_nil] at keeps

theorem of_keeps (keeps : Keeps start segment { ledger with regions := all })
    (regions : ledger.regions = own) : Serves start all own segment ledger := by
  refine ⟨[], regions.trans (List.append_nil own).symm, ?_⟩
  rwa [List.append_nil]

end Serves

end Segment

namespace Client

/-- The client, with its heap over another state of the arena. -/
def withArena {A : Type} (client : Client A) (arena : A) : Client A :=
  { client with heap := client.heap.withArena arena }

/-- Nothing that a client can look at has changed: its free blocks, its counts, and the allocations
    that it holds with the bytes in them. -/
structure Undisturbed (client client' : Client Segment) : Prop where
  live : client'.live = client.live
  freeBlocks : client'.heap.freeBlocks = client.heap.freeBlocks
  stats : client'.heap.stats = client.heap.stats
  ownBytes : ∀ a ∈ client.live, ∃ bytes, client.ownBytes a = .ok bytes ∧
    client'.ownBytes a = .ok bytes

namespace Sound

variable {client : Client Segment} {start : Nat} {all own more : List Region} {ledger : Ledger}
  {free : List FreeBlock} {request : Request} {segment : Segment}

/-- A request to one heap of several is accounted for, and a block that shares no byte with the
    memory of this heap keeps its bytes. -/
theorem request_among (part : own.Sublist all)
    (h : client.Sound (Segment.Serves start all own) ledger free) (regions : ledger.regions = own)
    (permitted : client.Permits request) :
    let gained := client.heap.arena.gained (client.step request).heap.arena
    (∃ ledger' free', ledger'.regions = own ++ gained ∧
      (client.step request).Sound (Segment.Serves start (all ++ gained) (own ++ gained)) ledger'
        free') ∧
    ∀ b : FreeBlock, client.heap.arena.contains b.address (b.size * Segment.unit) = true →
      (∀ region ∈ own ++ gained, region.Disjoint (b.span Segment.unit)) →
      ∀ x ∈ b.span Segment.unit,
        (client.step request).heap.arena.memory.byteAt x = client.heap.arena.memory.byteAt x := by
  intro gained
  have serves := h.accounts.holds.keeps
  obtain ⟨kept, ledger', layout, granted, reached, few⟩ :=
    (h.recast serves.recalls_survey serves.survey).reaches (Segment.laws_serves start part) permitted
  have accounts := reached.heap.accounts
  have regions' : ledger'.regions = own ++ granted :=
    reached.heap.regions.trans (congrArg (· ++ granted) regions)
  have keeps' := accounts.holds.keeps.keeps regions'
  have same : gained = granted := by
    apply Segment.gained_eq ((serves.keeps_all regions).follow.behind keeps'.follow) few
    intro region mem
    apply accounts.holds.wellFormed.start_lt_stop (by decide)
    rw [regions']
    exact List.mem_append_right _ mem
  rw [same]
  constructor
  · exact ⟨ledger', layout.free, regions', reached.sound.recast (.refl _) (.of_keeps keeps' regions')⟩
  · intro b inside disjoint x byte
    rw [← regions'] at disjoint
    exact keeps'.byteAt_eq
      (reached.heap.outside.spares accounts.holds.wellFormed (by decide) disjoint) inside byte

section Elsewhere

variable (part : own.Sublist all) (h : client.Sound (Segment.Serves start all own) ledger free)
  (regions : ledger.regions = own) (keeps : segment.Keeps start { regions := all ++ more })
  (same : ∀ region ∈ own, ∀ x ∈ region,
    segment.memory.byteAt x = client.heap.arena.memory.byteAt x)

include part h regions keeps same

/-- A heap of several whose memory has its bytes still accounts for it as before. -/
theorem withArena : ∃ ledger', ledger'.regions = own ∧
    (client.withArena segment).Sound (Segment.Serves start (all ++ more) own) ledger' free := by
  have accounts := h.accounts
  have stood := accounts.holds.keeps.keeps_all regions
  have serves : Segment.Serves start (all ++ more) own segment
      (ledger.only (free ++ client.blocks)) := by
    refine .of_keeps { keeps with header := ?_ } regions
    intro address header known
    obtain ⟨block, known⟩ := Option.ite_none_right_eq_some.1 known
    obtain ⟨b, mem, rfl⟩ := List.mem_map.1 block
    obtain ⟨region, granted, inside, -⟩ := accounts.holds.wellFormed.exists_region (by decide)
      (accounts.cells_subset mem (FreeBlock.address_mem_cells (accounts.block_nonempty b mem)))
    rw [regions] at granted
    refine ⟨keeps.contains (List.mem_append_left _ (part.subset granted)) inside, ?_⟩
    rw [← (stood.header _ _ known).2]
    obtain ⟨first, last⟩ := Region.contains_eq_true_iff.1 inside
    apply Segment.headerAt_congr
    exact fun x low high => same region granted x ⟨Nat.le_trans first low, Nat.lt_of_lt_of_le high last⟩
  refine ⟨ledger.only (free ++ client.blocks), regions, ?_, h.behind⟩
  exact {
    accounts with
    holds := accounts.holds.congr rfl serves fun b mem =>
      Ledger.header?_only (List.mem_append_left _ mem)
    header := fun b (mem : b ∈ client.blocks) => by
      rw [Ledger.header?_only (List.mem_append_right _ mem)]
      exact accounts.header b mem }

/-- Its client finds everything as it was. -/
theorem undisturbed : client.Undisturbed (client.withArena segment) := by
  obtain ⟨ledger', regions', sound⟩ := h.withArena part regions keeps same
  have laws := Segment.laws_serves start part
  have laws' := Segment.laws_serves start (part.trans (List.sublist_append_left all more))
  constructor
  case live => rfl
  case freeBlocks => rw [sound.freeBlocks_eq laws', h.freeBlocks_eq laws]
  case stats =>
    rw [sound.stats_eq laws', h.stats_eq laws]
    rfl
  case ownBytes =>
    intro a held
    have accounts := h.accounts
    have mem : a.block Segment.unit ∈ free ++ client.blocks :=
      List.mem_append_right _ (List.mem_map_of_mem held)
    have owned := accounts.cells_subset mem
    have wellFormed := accounts.holds.wellFormed
    obtain ⟨word, payload, stop⟩ := h.block_place held
    have inside : client.heap.arena.contains (a.address - Segment.wordBytes)
        (Segment.wordBytes + a.room Segment.unit) = true :=
      (accounts.holds.keeps.keeps_all regions).contains_block (regions ▸ part.subset) wellFormed
        (Nat.succ_pos _) owned (by omega) (by omega)
    have inside' : segment.contains (a.address - Segment.wordBytes)
        (Segment.wordBytes + a.room Segment.unit) = true :=
      keeps.contains_block (regions ▸ List.subset_append_of_subset_left more part.subset) wellFormed
        (Nat.succ_pos _) owned (by omega) (by omega)
    have equal := Segment.readBytes_congr inside inside' fun x low high => by
      obtain ⟨region, granted, byte⟩ :=
        (accounts.occupied_iff laws).1 ⟨_, mem, h.own_byte held low high⟩
      exact same region (regions ▸ granted) x byte
    exact ⟨_, if_pos inside, equal.trans (if_pos inside)⟩

end Elsewhere

end Sound

end Client

end NextFit
