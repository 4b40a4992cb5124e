import NextFit.Proofs.Arena.Segment
import NextFit.Proofs.Client.Observation
import NextFit.Proofs.Heap.Asks

/-! # When an allocation extends the arena

An allocation that finds a free block with enough units leaves the arena alone. Otherwise it asks the
arena once, for the units that it needs or for the least number that the heap was told to ask for, and
what it is granted is enough. So an allocation ends as its only reply says, and it never searches more
than twice.
-/

namespace NextFit

namespace Layout

variable {unit size : Nat} {reply : Nat → Except Failure Nat} {layout rest : Layout}
  {result : Except Failure Nat} {granted : List Region}

theorem take?_counts {units block : Nat} (found : layout.take? unit units = some (block, rest)) :
    rest.arenaUnits = layout.arenaUnits ∧ rest.extensions = layout.extensions := by
  obtain ⟨b, -, same⟩ := Option.map_eq_some_iff.1 found
  cases same
  exact ⟨rfl, rfl⟩

variable (fits : (size ⌈/⌉ unit + 1) * unit < Size.bound)

include fits

theorem request?_of_found (found : ∃ b ∈ layout.free, size ⌈/⌉ unit + 1 ≤ b.size) :
    layout.request? unit size = none := by
  obtain ⟨b, mem, enough⟩ := found
  have some : layout.take? unit (size ⌈/⌉ unit + 1) ≠ none := fun none =>
    absurd enough (Nat.not_le.2 (take?_eq_none_iff.1 none b mem))
  rw [request?, if_pos fits, asksFor?, if_neg some]

theorem request?_of_overlarge (short : ∀ b ∈ layout.free, b.size < size ⌈/⌉ unit + 1)
    (large : Size.bound ≤ layout.demand (size ⌈/⌉ unit + 1) * unit) :
    layout.request? unit size = none := by
  rw [request?, if_pos fits, asksFor?, if_pos (take?_eq_none_iff.2 short)]
  exact if_neg (Nat.not_lt.2 large)

theorem request?_of_short (short : ∀ b ∈ layout.free, b.size < size ⌈/⌉ unit + 1)
    (small : layout.demand (size ⌈/⌉ unit + 1) * unit < Size.bound) :
    layout.request? unit size = some (layout.demand (size ⌈/⌉ unit + 1) * unit) := by
  rw [request?, if_pos fits, asksFor?, if_pos (take?_eq_none_iff.2 short)]
  exact Size.mul?_eq_some_iff.2 ⟨small, rfl⟩

variable (h : layout.Allocates unit reply size result rest granted)

include h

theorem Allocates.acquires :
    ∃ acquired, result = acquired.map (· + unit) ∧
      layout.Acquires unit reply (size ⌈/⌉ unit + 1) acquired rest granted := by
  cases h with
  | oversized large => exact absurd fits (Nat.not_lt.2 large)
  | served _ acquires => exact ⟨_, rfl, acquires⟩

theorem Allocates.of_found (found : ∃ b ∈ layout.free, size ⌈/⌉ unit + 1 ≤ b.size) :
    (∃ address, result = .ok address) ∧ rest.arenaUnits = layout.arenaUnits ∧
      rest.extensions = layout.extensions := by
  obtain ⟨acquired, rfl, acquires⟩ := h.acquires fits
  obtain ⟨b, mem, enough⟩ := found
  cases acquires with
  | found first => exact ⟨⟨_, rfl⟩, take?_counts first⟩
  | _ none => exact absurd enough (Nat.not_le.2 (take?_eq_none_iff.1 none b mem))

theorem Allocates.of_overlarge (short : ∀ b ∈ layout.free, b.size < size ⌈/⌉ unit + 1)
    (large : Size.bound ≤ layout.demand (size ⌈/⌉ unit + 1) * unit) :
    result = .error (.refused (.outOfMemory Size.greatest)) := by
  obtain ⟨acquired, rfl, acquires⟩ := h.acquires fits
  have none : layout.take? unit (size ⌈/⌉ unit + 1) = none := take?_eq_none_iff.2 short
  cases acquires with
  | found first => cases none.symm.trans first
  | overlarge => rfl
  | declined _ small => exact absurd small (Nat.not_lt.2 large)
  | extended _ small => exact absurd small (Nat.not_lt.2 large)

theorem Allocates.of_declined {failure : Failure}
    (short : ∀ b ∈ layout.free, b.size < size ⌈/⌉ unit + 1)
    (small : layout.demand (size ⌈/⌉ unit + 1) * unit < Size.bound)
    (answer : reply (layout.demand (size ⌈/⌉ unit + 1) * unit) = .error failure) :
    result = .error failure := by
  obtain ⟨acquired, rfl, acquires⟩ := h.acquires fits
  have none : layout.take? unit (size ⌈/⌉ unit + 1) = none := take?_eq_none_iff.2 short
  cases acquires with
  | found first => cases none.symm.trans first
  | overlarge _ large => exact absurd small (Nat.not_lt.2 large)
  | declined _ _ other =>
      cases other.symm.trans answer
      rfl
  | extended _ _ other => cases other.symm.trans answer

theorem Allocates.of_granted {base : Nat}
    (short : ∀ b ∈ layout.free, b.size < size ⌈/⌉ unit + 1)
    (small : layout.demand (size ⌈/⌉ unit + 1) * unit < Size.bound)
    (answer : reply (layout.demand (size ⌈/⌉ unit + 1) * unit) = .ok base) :
    (∃ address, result = .ok address) ∧
      rest.arenaUnits = layout.arenaUnits + layout.demand (size ⌈/⌉ unit + 1) ∧
      rest.extensions = layout.extensions + 1 := by
  obtain ⟨acquired, rfl, acquires⟩ := h.acquires fits
  have none : layout.take? unit (size ⌈/⌉ unit + 1) = none := take?_eq_none_iff.2 short
  cases acquires with
  | found first => cases none.symm.trans first
  | overlarge _ large => exact absurd small (Nat.not_lt.2 large)
  | declined _ _ other => cases other.symm.trans answer
  | extended _ _ _ second => exact ⟨⟨_, rfl⟩, take?_counts second⟩

end Layout

/-- The statistics of the heap have these counts. -/
def Heap.Counts {A : Type} [Arena A] (heap : Heap A) (arenaUnits extensions : Nat) : Prop :=
  ∃ stats, heap.stats = .ok stats ∧ stats.arenaUnits = arenaUnits ∧ stats.extensions = extensions

namespace Client

variable {A : Type} [Arena A] {arena : A} {config : HeapConfig} {requests : List Request}

theorem Sound.counts {Keeps : A → Ledger → Prop} {client : Client A} {ledger : Ledger}
    {free : List FreeBlock} (laws : Arena.Laws Keeps) (h : client.Sound Keeps ledger free) :
    client.heap.Counts client.heap.arenaUnits client.heap.extensions :=
  ⟨_, h.stats_eq laws, rfl, rfl⟩

/-- Behind any run, an allocation is served from the free list if a block there has enough units.
    Otherwise it asks the arena once, for exactly what the heap demands, and ends as the arena
    replies. A heap that demands more bytes than there are sizes does not ask. -/
theorem allocate_extends_once {size : Nat} (lawful : Arena.Lawful arena)
    (permitted : (new arena config).PermitsAll requests)
    (fits : (size ⌈/⌉ Arena.unit A + 1) * Arena.unit A < Size.bound) :
    let client := (new arena config).run requests
    let units := size ⌈/⌉ Arena.unit A + 1
    let demand := max units client.heap.config.minExtensionUnits
    let outcome := Heap.allocate size client.heap
    ∃ free arenaUnits extensions,
      client.heap.freeBlocks = .ok free ∧ client.heap.Counts arenaUnits extensions ∧
      ((∃ b ∈ free, units ≤ b.size) →
        client.heap.asked size = [] ∧ (∃ address, outcome.result = .ok address) ∧
        outcome.state.Counts arenaUnits extensions) ∧
      ((∀ b ∈ free, b.size < units) → Size.bound ≤ demand * Arena.unit A →
        client.heap.asked size = [] ∧
        outcome.result = .error (.refused (.outOfMemory Size.greatest))) ∧
      ((∀ b ∈ free, b.size < units) → demand * Arena.unit A < Size.bound →
        client.heap.asked size = [demand * Arena.unit A] ∧
        (∀ failure, Arena.reply client.heap.arena (demand * Arena.unit A) = .error failure →
          outcome.result = .error failure) ∧
        ∀ base, Arena.reply client.heap.arena (demand * Arena.unit A) = .ok base →
          (∃ address, outcome.result = .ok address) ∧
          outcome.state.Counts (arenaUnits + demand) (extensions + 1)) ∧
      ∀ rounds, Heap.acquire units (rounds + 2) client.heap = Heap.acquire units 2 client.heap := by
  intro client units demand outcome
  obtain ⟨Keeps, laws, keeps⟩ := lawful
  obtain ⟨ledger, free, sound, -⟩ := (Sound.new keeps config).run laws permitted
  obtain ⟨result, ledger', rest, granted, allocates, ended, reached⟩ := sound.allocate laws size
  have asked := sound.accounts.asked_eq laws size
  have counts := reached.sound.counts laws
  have units_eq : (client.step (.allocate size)).heap.arenaUnits = rest.arenaUnits :=
    congrArg Layout.arenaUnits reached.heap.layout
  have extensions_eq : (client.step (.allocate size)).heap.extensions = rest.extensions :=
    congrArg Layout.extensions reached.heap.layout
  rw [units_eq, extensions_eq] at counts
  refine ⟨free, client.heap.arenaUnits, client.heap.extensions, sound.freeBlocks_eq laws,
    sound.counts laws, ?_, ?_, ?_, ?_⟩
  · intro found
    obtain ⟨served, units, extensions⟩ := allocates.of_found fits found
    rw [units, extensions] at counts
    rw [Layout.request?_of_found fits found] at asked
    exact ⟨asked, ended ▸ served, counts⟩
  · intro short large
    have idle : (client.heap.layout free).request? (Arena.unit A) size = none :=
      Layout.request?_of_overlarge fits short large
    rw [idle] at asked
    exact ⟨asked, ended.trans (allocates.of_overlarge fits short large)⟩
  · intro short small
    have busy : (client.heap.layout free).request? (Arena.unit A) size =
        some (demand * Arena.unit A) := Layout.request?_of_short fits short small
    rw [busy] at asked
    refine ⟨asked, ?_, ?_⟩
    · intro failure answer
      exact ended.trans (allocates.of_declined fits short small answer)
    · intro base answer
      obtain ⟨served, units, extensions⟩ := allocates.of_granted fits short small answer
      rw [units, extensions] at counts
      exact ⟨ended ▸ served, counts⟩
  · exact sound.accounts.acquire_eq laws (Nat.succ_pos _)

/-- The new memory alone is enough, and is merged with the free block below it. -/
theorem allocate_extends_once_merged :
    let client := (new Segment.default { minExtensionUnits := 4 }).run [.allocate 8]
    client.heap.freeBlocks = .ok [{ address := 0x10040000, size := 2 }] ∧
      client.heap.asked 24 = [32] ∧ (∃ address, (Heap.allocate 24 client.heap).result = .ok address) ∧
      (Heap.allocate 24 client.heap).state.Counts 8 2 := by
  intro client
  have permitted : (new Segment.default { minExtensionUnits := 4 }).PermitsAll [.allocate 8] := by
    decide
  have listed : client.heap.freeBlocks = .ok [{ address := 0x10040000, size := 2 }] := by decide
  have counted : client.heap.stats =
      .ok { arenaUnits := 4, freeUnits := 2, freeBlocks := 1, extensions := 1 } := by decide
  have answer : Arena.reply client.heap.arena 32 = .ok 0x10040020 := by decide
  obtain ⟨free, _, _, known, ⟨stats, same, rfl, rfl⟩, -, -, asks, -⟩ :=
    allocate_extends_once (Segment.lawful _) permitted
      (show (24 ⌈/⌉ Arena.unit Segment + 1) * Arena.unit Segment < Size.bound by decide)
  cases known.symm.trans listed
  cases same.symm.trans counted
  obtain ⟨asked, -, granted⟩ := asks (by decide) (by decide)
  exact ⟨listed, asked, granted _ answer⟩

end Client

end NextFit
