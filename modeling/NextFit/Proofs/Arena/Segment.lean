import NextFit.Arena.Segment
import NextFit.Proofs.Ledger

/-! # Segments are lawful arenas

A segment grants each region where the last one ended, so the regions of a heap that has a segment to
itself make up one range, from where the break stood at first to where it stands now. Headers are
words in that range, and words that share no byte do not disturb each other.
-/

namespace NextFit

namespace Region

/-- Each region starts where the one before it ends. -/
def Follow : (start : Nat) → List Region → (stop : Nat) → Prop
  | start, [], stop => start = stop
  | start, region :: rest, stop =>
      region.start = start ∧ start ≤ region.stop ∧ Follow region.stop rest stop

variable {regions : List Region} {start stop : Nat}

theorem Follow.append {next : Nat} (h : Follow start regions stop) (order : stop ≤ next) :
    Follow start (regions ++ [{ start := stop, stop := next }]) next := by
  induction regions generalizing start with
  | nil =>
      cases h
      exact ⟨rfl, order, rfl⟩
  | cons region rest ih => exact ⟨h.1, h.2.1, ih h.2.2⟩

theorem Follow.le (h : Follow start regions stop) : start ≤ stop := by
  induction regions generalizing start with
  | nil => exact Nat.le_of_eq h
  | cons region rest ih => exact Nat.le_trans h.2.1 (ih h.2.2)

theorem Follow.unique {stop' : Nat} (h : Follow start regions stop) (h' : Follow start regions stop') :
    stop = stop' := by
  induction regions generalizing start with
  | nil => exact Eq.trans (Eq.symm h) h'
  | cons region rest ih => exact ih h.2.2 h'.2.2

/-- What follows regions starts where they stop. -/
theorem Follow.behind {more : List Region} {stop' : Nat} (h : Follow start regions stop)
    (h' : Follow start (regions ++ more) stop') : Follow stop more stop' := by
  induction regions generalizing start with
  | nil => exact h ▸ h'
  | cons region rest ih => exact ih h.2.2 h'.2.2

theorem Follow.inside (h : Follow start regions stop) {region : Region} (mem : region ∈ regions) :
    start ≤ region.start ∧ region.stop ≤ stop := by
  induction regions generalizing start with
  | nil => exact absurd mem List.not_mem_nil
  | cons first rest ih =>
      rcases List.mem_cons.1 mem with rfl | later
      · exact ⟨Nat.le_of_eq h.1.symm, h.2.2.le⟩
      · obtain ⟨low, high⟩ := ih h.2.2 later
        exact ⟨Nat.le_trans h.2.1 low, high⟩

theorem Follow.pairwise_disjoint (h : Follow start regions stop) : regions.Pairwise Disjoint := by
  induction regions generalizing start with
  | nil => exact .nil
  | cons region rest ih =>
      refine List.pairwise_cons.2 ⟨?_, ih h.2.2⟩
      exact fun other mem => disjoint_of_le (.inl (h.2.2.inside mem).1)

theorem Follow.units_le (h : Follow start regions stop) (unit : Nat) :
    FreeBlock.units (regions.map (block unit)) * unit ≤ stop - start := by
  induction regions generalizing start with
  | nil => simp [FreeBlock.units]
  | cons region rest ih =>
      have later := ih h.2.2
      have ends := h.2.2.le
      have whole := Nat.div_mul_le_self (region.stop - region.start) unit
      obtain ⟨rfl, order, -⟩ := h
      simp only [FreeBlock.units, List.map_cons, block, Nat.add_mul] at later whole ⊢
      omega

theorem Follow.stop_eq {unit : Nat} (positive : 0 < unit) (h : Follow start regions stop)
    (whole : ∀ region ∈ regions, ∃ n, 0 < n ∧ region.stop = region.start + n * unit) :
    stop = start + FreeBlock.units (regions.map (block unit)) * unit := by
  induction regions generalizing start with
  | nil =>
      rw [List.map_nil, FreeBlock.units, Nat.zero_mul]
      exact h.symm
  | cons region rest ih =>
      obtain ⟨n, -, ends⟩ := whole region List.mem_cons_self
      have later := ih h.2.2 fun region mem => whole region (List.mem_cons_of_mem _ mem)
      have size : (region.stop - region.start) / unit = n := by
        rw [ends, Nat.add_sub_cancel_left, Nat.mul_div_cancel _ positive]
      rw [later, ends, h.1, List.map_cons, FreeBlock.units, block, size, Nat.add_mul, Nat.add_assoc]

/-- Regions of whole units that follow one another are like one block. -/
theorem Follow.tile {unit : Nat} (positive : 0 < unit) (h : Follow start regions stop)
    (whole : ∀ region ∈ regions, ∃ n, 0 < n ∧ region.stop = region.start + n * unit) :
    FreeBlock.Tile unit
      [{ address := start, size := FreeBlock.units (regions.map (block unit)) }]
      (regions.map (block unit)) := by
  induction regions generalizing start with
  | nil => exact .refl _
  | cons region rest ih =>
      obtain ⟨n, -, ends⟩ := whole region List.mem_cons_self
      have later := ih h.2.2 fun region mem => whole region (List.mem_cons_of_mem _ mem)
      obtain ⟨rfl, -, -⟩ := h
      have size : (region.stop - region.start) / unit = n := by
        rw [ends, Nat.add_sub_cancel_left, Nat.mul_div_cancel _ positive]
      have parts := FreeBlock.cells_add unit region.start n (FreeBlock.units (rest.map (block unit)))
      rw [← ends] at parts
      simp only [FreeBlock.Tile, FreeBlock.allCells_cons, FreeBlock.allCells_nil,
        List.append_nil] at later ⊢
      simp only [FreeBlock.units, List.map_cons, block, size] at later parts ⊢
      rw [parts]
      exact later.append_left _

end Region

namespace Segment

variable {segment segment' : Segment} {address : Nat}

theorem exists_create {base : Nat} (nonzero : base ≠ 0) (aligned : base % 8 = 0) :
    ∃ segment, create base = .ok segment ∧ segment.base = base ∧ segment.length = 0 := by
  rw [create, dif_neg nonzero, dif_pos aligned]
  exact ⟨_, rfl, rfl, rfl⟩

theorem grows_iff {bytes : Nat} : (segment.grownLength? bytes).isSome = true ↔
    (∀ most ∈ segment.limit, segment.length + bytes ≤ most) ∧
      segment.base + segment.length + bytes ≤ wordBound := by
  rw [Option.isSome_iff_exists, Nat.add_assoc]
  constructor
  · rintro ⟨length, grown⟩
    obtain ⟨rfl, room⟩ := grownLength?_eq_some_iff.1 grown
    exact room
  · exact fun room => ⟨_, grownLength?_eq_some_iff.2 ⟨rfl, room⟩⟩

/-- A segment that holds a byte ends within the range of header words. -/
theorem contains_iff_of_pos {length : Nat} (positive : 0 < length) :
    segment.contains address length = true ↔
      segment.base ≤ address ∧ address + length ≤ segment.brk := by
  have words : wordBound < Size.bound := by decide
  have reached : segment.length = 0 ∨ segment.brk ≤ wordBound := segment.addressable
  rw [contains_eq_true_iff]
  simp only [brk] at reached ⊢
  omega

theorem extend_ok {bytes base : Nat}
    (answered : (extend bytes).Yields segment (.ok base) segment') :
    base = segment.brk ∧ segment'.base = segment.base ∧
      segment'.length = segment.length + bytes ∧ segment'.limit = segment.limit ∧
      segment'.memory = segment.memory ∧ segment'.brk ≤ wordBound := by
  obtain ⟨answer, changed⟩ := answered
  subst changed
  unfold extend at answer ⊢
  split at answer
  · cases answer
  · rename_i length grown
    cases answer
    obtain ⟨rfl, -, bound⟩ := grownLength?_eq_some_iff.1 grown
    exact ⟨rfl, rfl, rfl, rfl, rfl, bound⟩

theorem extend_error {bytes : Nat} {failure : Failure}
    (answered : (extend bytes).Yields segment (.error failure) segment') : segment' = segment := by
  obtain ⟨answer, changed⟩ := answered
  subst changed
  unfold extend at answer ⊢
  split at answer
  · rfl
  · cases answer

theorem reply_eq (segment : Segment) (bytes : Nat) : Arena.reply segment bytes =
    if (segment.grownLength? bytes).isSome then .ok segment.brk
    else .error (.refused (.outOfMemory bytes)) := by
  simp only [Arena.reply, Arena.extend, extend]
  split
  · simp [*]
    rfl
  · simp [*]

/-- Two segments that only the bytes tell apart. -/
structure SameExtent (segment segment' : Segment) : Prop where
  base : segment'.base = segment.base
  length : segment'.length = segment.length
  limit : segment'.limit = segment.limit

namespace SameExtent

theorem refl (segment : Segment) : segment.SameExtent segment :=
  ⟨rfl, rfl, rfl⟩

theorem trans {segment'' : Segment} (first : segment.SameExtent segment')
    (second : segment'.SameExtent segment'') : segment.SameExtent segment'' :=
  ⟨second.base.trans first.base, second.length.trans first.length, second.limit.trans first.limit⟩

theorem brk (h : segment.SameExtent segment') : segment'.brk = segment.brk := by
  rw [Segment.brk, Segment.brk, h.base, h.length]

theorem contains (h : segment.SameExtent segment') (address length : Nat) :
    segment'.contains address length = segment.contains address length := by
  rw [Segment.contains, Segment.contains, h.brk, h.base]

/-- Whether a segment grows does not depend on its bytes. -/
theorem reply (h : segment.SameExtent segment') : Arena.reply segment' = Arena.reply segment := by
  funext bytes
  have grown : segment'.grownLength? bytes = segment.grownLength? bytes := by
    simp only [grownLength?, h.base, h.length, h.limit]
  rw [reply_eq, reply_eq, grown, h.brk]

end SameExtent

/-- The only reason not to grow is that there is no room for so many bytes. -/
theorem reply_error {bytes : Nat} {failure : Failure}
    (answer : Arena.reply segment bytes = .error failure) :
    failure = .refused (.outOfMemory bytes) := by
  simp only [Arena.reply, Arena.extend, extend] at answer
  split at answer <;> cases answer
  rfl

theorem readBytes_congr {address length : Nat} (inside : segment.contains address length = true)
    (inside' : segment'.contains address length = true)
    (same : ∀ x, address ≤ x → x < address + length →
      segment'.memory.byteAt x = segment.memory.byteAt x) :
    segment'.readBytes address length = segment.readBytes address length := by
  rw [readBytes, readBytes, if_pos inside, if_pos inside', Memory.read_congr same]

theorem yields_writeBytes {bytes : List UInt8}
    (inside : segment.contains address bytes.length = true) :
    ∃ segment', (writeBytes address bytes).Yields segment (.ok ()) segment' ∧
      segment.SameExtent segment' ∧ segment'.memory = segment.memory.write address bytes := by
  refine ⟨(writeBytes address bytes segment).state, ⟨?_, rfl⟩, ⟨?_, ?_, ?_⟩, ?_⟩ <;>
    simp only [writeBytes, dif_pos inside]

theorem yields_writeWord {value : Nat} (inside : segment.contains address wordBytes = true)
    (fits : value < wordBound) :
    ∃ segment', (writeWord address value).Yields segment (.ok ()) segment' ∧
      segment.SameExtent segment' ∧
      segment'.memory = segment.memory.writeWord wordBytes address value := by
  have bytes : segment.contains address (LittleEndian.encode wordBytes value).length = true := by
    rw [LittleEndian.length_encode]
    exact inside
  obtain ⟨segment', written, extent, memory⟩ := yields_writeBytes bytes
  exact ⟨segment', .bind (.require fits) written, extent, memory⟩

/-- The two words of a header lie in it side by side. -/
theorem contains_words (inside : segment.contains address unit = true) :
    segment.contains address wordBytes = true ∧
      segment.contains (address + wordBytes) wordBytes = true := by
  simp only [contains_eq_true_iff, unit, wordBytes] at inside ⊢
  omega

/-- The header whose words stand at an address. -/
def headerAt (memory : Memory) (address : Nat) : Header where
  size := memory.readWord wordBytes (address + wordBytes)
  next := memory.readWord wordBytes address

theorem load_eq (inside : segment.contains address unit = true) :
    segment.load address = .ok (headerAt segment.memory address) := by
  obtain ⟨first, second⟩ := contains_words inside
  have bounds := contains_eq_true_iff.1 second
  have place : Size.add address wordBytes = .ok (address + wordBytes) := Size.add_of_lt (by omega)
  simp only [load, place, readWord, readBytes, first, second, bind, Except.bind, if_true]
  rfl

theorem yields_store {header : Header} (inside : segment.contains address unit = true)
    (next : header.next < wordBound) (size : header.size < wordBound) :
    ∃ segment', (store address header).Yields segment (.ok ()) segment' ∧
      segment.SameExtent segment' ∧
      segment'.memory = (segment.memory.writeWord wordBytes address header.next).writeWord wordBytes
        (address + wordBytes) header.size := by
  obtain ⟨first, second⟩ := contains_words inside
  have bounds := contains_eq_true_iff.1 second
  have place : Size.add address wordBytes = .ok (address + wordBytes) := Size.add_of_lt (by omega)
  obtain ⟨linked, written, extent, memory⟩ := yields_writeWord first next
  rw [← extent.contains] at second
  obtain ⟨segment', written', extent', memory'⟩ := yields_writeWord second size
  refine ⟨segment', .bind written (.bind (.lift place) written'), extent.trans extent', ?_⟩
  rw [memory', memory]

theorem headerAt_store {memory : Memory} {header : Header} (next : header.next < wordBound)
    (size : header.size < wordBound) :
    headerAt ((memory.writeWord wordBytes address header.next).writeWord wordBytes
      (address + wordBytes) header.size) address = header := by
  have words : wordBound = LittleEndian.bound wordBytes := rfl
  rw [words] at next size
  rw [headerAt, Memory.readWord_writeWord size, Memory.writeWord,
    Memory.readWord_write_of_apart (.inl (Nat.le_refl _)), Memory.readWord_writeWord next]

/-- A header stands if all its bytes do. -/
theorem headerAt_congr {memory memory' : Memory} {address : Nat}
    (same : ∀ x, address ≤ x → x < address + unit → memory'.byteAt x = memory.byteAt x) :
    headerAt memory' address = headerAt memory address := by
  have words : unit = wordBytes + wordBytes := rfl
  have link : memory'.read address wordBytes = memory.read address wordBytes :=
    Memory.read_congr fun x low high => same x low (by omega)
  have size : memory'.read (address + wordBytes) wordBytes =
      memory.read (address + wordBytes) wordBytes :=
    Memory.read_congr fun x low high => same x (by omega) (by omega)
  simp only [headerAt, Memory.readWord, link, size]

/-- A header stands if other bytes are written. -/
theorem headerAt_write_of_apart {memory : Memory} {bytes : List UInt8} {target : Nat}
    (apart : address + unit ≤ target ∨ target + bytes.length ≤ address) :
    headerAt (memory.write target bytes) address = headerAt memory address := by
  apply headerAt_congr
  intro x low high
  apply Memory.byteAt_write_of_outside
  omega

/-- The segment has these headers. -/
def Stands (segment : Segment) (header? : Nat → Option Header) : Prop :=
  ∀ address header, header? address = some header →
    segment.contains address unit = true ∧ headerAt segment.memory address = header

/-- A header that is stored stands, and so do those that it shares no byte with. -/
theorem Stands.store {ledger : Ledger} {header : Header} (h : segment.Stands ledger.header?)
    (within : segment.contains address unit = true) (next : header.next < wordBound)
    (size : header.size < wordBound) :
    ∃ segment', (store address header).Yields segment (.ok ()) segment' ∧
      segment.SameExtent segment' ∧ segment'.Stands (ledger.write unit address header).header? := by
  obtain ⟨segment', stored, extent, memory⟩ := yields_store within next size
  refine ⟨segment', stored, extent, ?_⟩
  intro query known found
  rw [extent.contains, memory]
  by_cases same : query = address
  · subst same
    obtain rfl := Option.some.inj ((Ledger.header?_write_self ledger query header).symm.trans found)
    exact ⟨within, headerAt_store next size⟩
  · obtain ⟨apart, found⟩ := Ledger.header?_overwrite_eq_some.1 ((if_neg same).symm.trans found)
    have old := h query known found
    have words : unit = wordBytes + wordBytes := rfl
    refine ⟨old.1, ?_⟩
    rw [Memory.writeWord, Memory.writeWord, headerAt_write_of_apart, headerAt_write_of_apart]
    · exact old.2
    · rw [LittleEndian.length_encode]
      omega
    · rw [LittleEndian.length_encode]
      omega

/-- Whatever could be a header is one. -/
def survey (segment : Segment) (regions : List Region) : Ledger where
  regions
  header? address :=
    if segment.contains address unit then some (headerAt segment.memory address) else none

theorem stands_survey (segment : Segment) (regions : List Region) :
    segment.Stands (segment.survey regions).header? := by
  intro address header known
  obtain ⟨inside, spelled⟩ := Option.ite_none_right_eq_some.1 known
  exact ⟨inside, Option.some.inj spelled⟩

/-- What a segment keeps for a heap that came to it when the break was at `start`. -/
structure Keeps (start : Nat) (segment : Segment) (ledger : Ledger) : Prop where
  base_le : segment.base ≤ start
  follow : Region.Follow start ledger.regions segment.brk
  addressable : ledger.regions = [] ∨ segment.brk ≤ wordBound
  header : segment.Stands ledger.header?

namespace Keeps

variable {start : Nat} {ledger : Ledger} {region : Region}

theorem brk_le (h : Keeps start segment ledger) (mem : region ∈ ledger.regions) :
    segment.brk ≤ wordBound :=
  h.addressable.resolve_left (List.ne_nil_of_mem mem)

theorem contains (h : Keeps start segment ledger) (mem : region ∈ ledger.regions) {length : Nat}
    (inside : region.contains address length = true) :
    segment.contains address length = true := by
  obtain ⟨low, high⟩ := Region.contains_eq_true_iff.1 inside
  obtain ⟨first, last⟩ := h.follow.inside mem
  have base := h.base_le
  have bound := h.brk_le mem
  have words : wordBound < Size.bound := by decide
  exact contains_eq_true_iff.2 ⟨by omega, by omega, by omega⟩

theorem units_lt (h : Keeps start segment ledger) (mem : region ∈ ledger.regions) :
    ledger.units unit < wordBound := by
  have few := h.follow.units_le unit
  have bound := h.brk_le mem
  have base := h.base_le
  have words : 0 < wordBound := by decide
  have nonzero := segment.base_ne_zero
  simp only [Ledger.units, unit, wordBytes] at few ⊢
  omega

theorem next_lt (h : Keeps start segment ledger) (mem : region ∈ ledger.regions) {next : Nat}
    (leads : next = sentinelAddress ∨ ∃ target ∈ ledger.regions, next ∈ target) :
    next < wordBound := by
  rcases leads with rfl | ⟨target, granted, inside⟩
  · decide
  · have bound := h.brk_le mem
    exact Nat.lt_of_lt_of_le inside.2 (Nat.le_trans (h.follow.inside granted).2 bound)

theorem extend (h : Keeps start segment ledger) {bytes base : Nat}
    (answered : (extend bytes).Yields segment (.ok base) segment') :
    Keeps start segment' (ledger.grant base bytes) := by
  obtain ⟨rfl, base, length, -, memory, bound⟩ := extend_ok answered
  have grown : segment'.brk = segment.brk + bytes := by
    rw [brk, brk, base, length, Nat.add_assoc]
  constructor
  case base_le => exact base ▸ h.base_le
  case follow => exact grown ▸ h.follow.append (Nat.le_add_right _ _)
  case addressable => exact .inr bound
  case header =>
    intro address header known
    obtain ⟨inside, stands⟩ := h.header address header known
    rw [contains_eq_true_iff] at inside ⊢
    exact ⟨⟨base ▸ inside.1, inside.2.1, by omega⟩, memory ▸ stands⟩

theorem write (h : Keeps start segment ledger) {header? : Nat → Option Header}
    (extent : segment.SameExtent segment') (stands : segment'.Stands header?) :
    Keeps start segment' { ledger with header? } where
  base_le := extent.base ▸ h.base_le
  follow := extent.brk ▸ h.follow
  addressable := extent.brk ▸ h.addressable
  header := stands

theorem store (h : Keeps start segment ledger) {address : Nat} {header : Header}
    (mem : region ∈ ledger.regions) (inside : region.contains address unit = true)
    (leads : header.next = sentinelAddress ∨ ∃ target ∈ ledger.regions, header.next ∈ target)
    (fits : header.size ≤ ledger.units unit) :
    ∃ segment', (store address header).Yields segment (.ok ()) segment' ∧
      segment.SameExtent segment' ∧ Keeps start segment' (ledger.write unit address header) := by
  obtain ⟨segment', stored, extent, stands⟩ := h.header.store (h.contains mem inside)
    (h.next_lt mem leads) (Nat.lt_of_le_of_lt fits (h.units_lt mem))
  exact ⟨segment', stored, extent, h.write extent stands⟩

theorem fill (h : Keeps start segment ledger) {address count : Nat} {value : UInt8}
    (inside : segment.contains address count = true) :
    ∃ segment', (fill address value count).Yields segment (.ok ()) segment' ∧
      segment.SameExtent segment' ∧ Keeps start segment' (ledger.overwrite unit address count) := by
  have bytes : segment.contains address (List.replicate count value).length = true := by
    rw [List.length_replicate]
    exact inside
  obtain ⟨segment', written, extent, memory⟩ := yields_writeBytes bytes
  refine ⟨segment', ?_, extent, h.write extent ?_⟩
  · rw [Op.Yields, Segment.fill, if_pos inside]
    exact written
  · intro query known found
    obtain ⟨apart, found⟩ := Ledger.header?_overwrite_eq_some.1 found
    obtain ⟨within, stands⟩ := h.header query known found
    rw [extent.contains]
    refine ⟨within, ?_⟩
    rw [memory, headerAt_write_of_apart (by simpa using apart)]
    exact stands

/-- The break is behind all memory of a heap, be it all that the segment has granted or a part. -/
theorem contains_block {own : Ledger} (h : Keeps start segment ledger)
    (part : own.regions ⊆ ledger.regions) (wellFormed : own.WellFormed unit) {b : FreeBlock}
    (nonempty : 0 < b.size) (owned : b.cells unit ⊆ own.cells unit) {length : Nat}
    (low : b.address ≤ address) (high : address + length ≤ b.stop unit) :
    segment.contains address length = true := by
  have inside := wellFormed.block_within (by decide) nonempty owned
    fun _ mem => h.follow.inside (part mem)
  obtain ⟨region, mem, -⟩ := wellFormed.exists_region (by decide)
    (owned (FreeBlock.address_mem_cells nonempty))
  have base := h.base_le
  have bound := h.brk_le (part mem)
  have words : wordBound < Size.bound := by decide
  exact contains_eq_true_iff.2 ⟨by omega, by omega, by omega⟩

end Keeps

/-- A segment keeps its promises to a heap that has it to itself. -/
theorem laws (start : Nat) : Arena.Laws (Keeps start) where
  unit_pos := by decide
  granted := by
    intro segment segment' ledger bytes base keeps answered
    obtain ⟨rfl, same, length, -, -, bound⟩ := extend_ok answered
    have nonzero := segment.base_ne_zero
    have words : wordBound ≤ Size.greatest := by decide
    simp only [brk, same, length] at bound ⊢
    refine ⟨by omega, by omega, ?_, keeps.extend answered⟩
    intro region mem x old new
    have last := (keeps.follow.inside mem).2
    exact Nat.lt_irrefl x (Nat.lt_of_lt_of_le old.2 (Nat.le_trans last new.1))
  refused keeps answered := extend_error answered ▸ keeps
  contains keeps mem inside := keeps.contains mem inside
  load keeps known := by
    obtain ⟨inside, stands⟩ := keeps.header _ _ known
    exact (load_eq inside).trans (congrArg _ stands)
  store keeps mem inside leads fits := by
    obtain ⟨segment', stored, -, kept⟩ := keeps.store mem inside leads fits
    exact ⟨segment', stored, kept⟩
  fill keeps inside := by
    obtain ⟨segment', filled, -, kept⟩ := keeps.fill inside
    exact filled.2 ▸ kept

theorem fillable (start : Nat) : Arena.Fillable (Keeps start) := by
  intro segment ledger b address count value keeps wellFormed nonempty owned low high
  have inside := keeps.contains_block (List.Subset.refl _) wellFormed nonempty owned low high
  obtain ⟨segment', filled, -⟩ := keeps.fill inside
  exact ⟨inside, filled.1⟩

/-- What a segment keeps that has the base and the limit of another one. -/
structure KeepsWithin (start : Nat) (origin segment : Segment) (ledger : Ledger) : Prop
    extends Keeps start segment ledger where
  base : segment.base = origin.base
  limit : segment.limit = origin.limit

/-- The base and the limit never change. -/
theorem laws_within (start : Nat) (origin : Segment) : Arena.Laws (KeepsWithin start origin) where
  unit_pos := by decide
  granted keeps answered := by
    obtain ⟨nonzero, ends, fresh, kept⟩ := (laws start).granted keeps.toKeeps answered
    obtain ⟨-, base, -, limit, -⟩ := extend_ok answered
    exact ⟨nonzero, ends, fresh, kept, base.trans keeps.base, limit.trans keeps.limit⟩
  refused keeps answered := extend_error answered ▸ keeps
  contains keeps mem inside := keeps.toKeeps.contains mem inside
  load keeps := (laws start).load keeps.toKeeps
  store keeps mem inside leads fits := by
    obtain ⟨segment', stored, extent, kept⟩ := keeps.toKeeps.store mem inside leads fits
    exact ⟨segment', stored, kept, extent.base.trans keeps.base, extent.limit.trans keeps.limit⟩
  fill keeps inside := by
    obtain ⟨segment', filled, extent, kept⟩ := keeps.toKeeps.fill inside
    exact filled.2 ▸ ⟨kept, extent.base.trans keeps.base, extent.limit.trans keeps.limit⟩

theorem fillable_within (start : Nat) (origin : Segment) :
    Arena.Fillable (KeepsWithin start origin) :=
  fun value keeps => fillable start value keeps.toKeeps

/-- A segment has grown by just what its heap was granted. -/
theorem KeepsWithin.length_eq {origin : Segment} {ledger : Ledger}
    (h : KeepsWithin origin.brk origin segment ledger) (wellFormed : ledger.WellFormed unit) :
    segment.length = origin.length + ledger.units unit * unit := by
  have ends := h.follow.stop_eq (by decide) wellFormed.whole
  have base := h.base
  rw [brk, brk, base] at ends
  rw [Ledger.units]
  omega

/-- Segments of one extent that are granted the same memory still have one extent. -/
theorem KeepsWithin.sameExtent {start start' : Nat} {origin after after' : Segment}
    {ledger ledger' later later' : Ledger} {granted : List Region}
    (extent : segment.SameExtent segment') (keeps : KeepsWithin start origin segment ledger)
    (keeps' : KeepsWithin start' origin segment' ledger')
    (h : KeepsWithin start origin after later) (h' : KeepsWithin start' origin after' later')
    (regions : later.regions = ledger.regions ++ granted)
    (regions' : later'.regions = ledger'.regions ++ granted) : after.SameExtent after' := by
  have first := keeps.follow.behind (regions ▸ h.follow)
  have second := keeps'.follow.behind (regions' ▸ h'.follow)
  rw [extent.brk] at second
  have ends := first.unique second
  have base : after'.base = after.base := h'.base.trans h.base.symm
  simp only [brk, base] at ends
  exact ⟨base, (Nat.add_left_cancel ends).symm, h'.limit.trans h.limit.symm⟩

theorem keeps_empty (segment : Segment) : Keeps segment.brk segment {} where
  base_le := Nat.le_add_right _ _
  follow := rfl
  addressable := .inl rfl
  header := nofun

theorem keepsWithin_empty (segment : Segment) : KeepsWithin segment.brk segment segment {} where
  toKeeps := segment.keeps_empty
  base := rfl
  limit := rfl

theorem lawful (segment : Segment) : Arena.Lawful segment :=
  ⟨_, laws segment.brk, segment.keeps_empty⟩

end Segment

end NextFit
