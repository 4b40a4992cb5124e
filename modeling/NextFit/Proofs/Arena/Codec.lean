import NextFit.Proofs.Arena.Segment

/-! # Headers as bytes

A header takes eight bytes: its link and then its size, each with the lowest byte first. To store it
is to write just these bytes, and to load it is to read them. So the one undoes the other, nothing
else changes, and the order of two stores only matters if they share a byte. A field that does not
fit its word is never cut down to it, it is a fault.
-/

namespace NextFit.Segment

variable {segment segment' : Segment} {address : Nat} {header : Header}

/-- The bytes of a header. -/
def spell (header : Header) : List UInt8 :=
  LittleEndian.encode wordBytes header.next ++ LittleEndian.encode wordBytes header.size

@[simp] theorem length_spell (header : Header) : (spell header).length = unit := by
  rw [spell, List.length_append, LittleEndian.length_encode, LittleEndian.length_encode]
  rfl

theorem spell_headerAt (memory : Memory) (address : Nat) :
    spell (headerAt memory address) = memory.read address unit := by
  rw [spell, headerAt, Memory.encode_readWord, Memory.encode_readWord, ← Memory.read_add]
  rfl

/-- Whatever bytes there are, they are words. -/
theorem headerAt_lt (memory : Memory) (address : Nat) :
    (headerAt memory address).next < wordBound ∧ (headerAt memory address).size < wordBound :=
  ⟨memory.readWord_lt wordBytes address, memory.readWord_lt wordBytes (address + wordBytes)⟩

/-- Segments of one extent with the same bytes. -/
structure SameBytes (segment segment' : Segment) : Prop extends SameExtent segment segment' where
  byteAt : ∀ x, segment'.memory.byteAt x = segment.memory.byteAt x

/-- To store a header is to write its bytes. -/
theorem yields_spell (inside : segment.contains address unit = true)
    (next : header.next < wordBound) (size : header.size < wordBound) :
    ∃ segment', (store address header).Yields segment (.ok ()) segment' ∧
      segment.SameExtent segment' ∧
      segment'.memory = segment.memory.write address (spell header) := by
  obtain ⟨segment', stored, extent, memory⟩ := yields_store inside next size
  refine ⟨segment', stored, extent, ?_⟩
  rw [memory, spell, Memory.write_append, LittleEndian.length_encode]
  rfl

theorem headerAt_spell {memory : Memory} (next : header.next < wordBound)
    (size : header.size < wordBound) :
    headerAt (memory.write address (spell header)) address = header := by
  rw [spell, Memory.write_append, LittleEndian.length_encode]
  exact headerAt_store next size

/-- To store what was loaded changes nothing. -/
theorem yields_store_load (inside : segment.contains address unit = true) :
    ∃ segment', (store address (headerAt segment.memory address)).Yields segment (.ok ()) segment' ∧
      segment.SameBytes segment' := by
  obtain ⟨next, size⟩ := headerAt_lt segment.memory address
  obtain ⟨segment', stored, extent, memory⟩ := yields_spell inside next size
  refine ⟨segment', stored, extent, fun x => ?_⟩
  rw [memory, spell_headerAt]
  exact Memory.byteAt_write_read _ _ _ _

/-- Two stores one after the other. -/
theorem yields_store_store {other : Nat} {header' : Header}
    (inside : segment.contains address unit = true) (inside' : segment.contains other unit = true)
    (fits : header.next < wordBound ∧ header.size < wordBound)
    (fits' : header'.next < wordBound ∧ header'.size < wordBound) :
    ∃ segment', (do store address header; store other header').Yields segment (.ok ()) segment' ∧
      segment.SameExtent segment' ∧
      segment'.memory =
        (segment.memory.write address (spell header)).write other (spell header') := by
  obtain ⟨first, stored, extent, memory⟩ := yields_spell inside fits.1 fits.2
  rw [← extent.contains] at inside'
  obtain ⟨second, stored', extent', memory'⟩ := yields_spell inside' fits'.1 fits'.2
  refine ⟨second, .bind stored stored', extent.trans extent', ?_⟩
  rw [memory', memory]

theorem store_comm {other : Nat} {header' : Header}
    (inside : segment.contains address unit = true) (inside' : segment.contains other unit = true)
    (apart : address + unit ≤ other ∨ other + unit ≤ address)
    (fits : header.next < wordBound ∧ header.size < wordBound)
    (fits' : header'.next < wordBound ∧ header'.size < wordBound) :
    ∃ first second,
      (do store address header; store other header').Yields segment (.ok ()) first ∧
      (do store other header'; store address header).Yields segment (.ok ()) second ∧
      first.SameBytes second := by
  obtain ⟨first, yields, extent, memory⟩ := yields_store_store inside inside' fits fits'
  obtain ⟨second, yields', extent', memory'⟩ := yields_store_store inside' inside fits' fits
  refine ⟨first, second, yields, yields', ⟨?_, ?_, ?_⟩, fun x => ?_⟩
  · rw [extent'.base, extent.base]
  · rw [extent'.length, extent.length]
  · rw [extent'.limit, extent.limit]
  · rw [memory, memory']
    exact Memory.byteAt_write_comm _ (by simpa using apart.symm) x

theorem writeWord_fits {value : Nat} (written : (writeWord address value segment).result = .ok ()) :
    value < wordBound := by
  apply Decidable.byContradiction
  intro wide
  have rejected : (writeWord address value).Yields segment
      (.error (.faulted (.wideWord value))) segment := .bind_error (.require_not wide)
  cases rejected.1.symm.trans written

/-- Nothing is stored unless both fields fit. -/
theorem store_fits (stored : (store address header segment).result = .ok ()) :
    header.next < wordBound ∧ header.size < wordBound := by
  obtain ⟨_, linked, rest⟩ := Op.exists_of_bind_ok stored
  obtain ⟨_, _, sized⟩ := Op.exists_of_bind_ok rest
  exact ⟨writeWord_fits linked, writeWord_fits sized⟩

/-- The field that is too wide is the fault, the link if both are. -/
theorem store_wide (inside : segment.contains address unit = true)
    (wide : wordBound ≤ header.next ∨ wordBound ≤ header.size) :
    (store address header segment).result =
      .error (.faulted (.wideWord
        (if wordBound ≤ header.next then header.next else header.size))) := by
  split
  case isTrue high =>
    have rejected : (store address header).Yields segment
        (.error (.faulted (.wideWord header.next))) segment :=
      .bind_error (.bind_error (.require_not (Nat.not_lt.2 high)))
    exact rejected.1
  case isFalse low =>
    have size := wide.resolve_left low
    obtain ⟨first, second⟩ := contains_words inside
    have bounds := contains_eq_true_iff.1 second
    have place : Size.add address wordBytes = .ok (address + wordBytes) :=
      Size.add_of_lt (by omega)
    -- The link is written by the time the size is noticed.
    obtain ⟨linked, written, -, -⟩ := yields_writeWord first (Nat.not_le.1 low)
    have rejected : (store address header).Yields segment
        (.error (.faulted (.wideWord header.size))) linked :=
      .bind written (.bind (.lift place) (.bind_error (.require_not (Nat.not_lt.2 size))))
    exact rejected.1

/-- Wherever a segment has room for a header, one that fits its words is stored as its link and then
    its size, and is loaded again. To store what was loaded changes nothing, stores that share no byte
    commute, and a header that does not fit is not stored. -/
theorem header_codec (low : segment.base ≤ address) (high : address + unit ≤ segment.brk) :
    (∀ header : Header, header.next < wordBound → header.size < wordBound →
      ∃ segment', (store address header).Yields segment (.ok ()) segment' ∧
        segment.SameExtent segment' ∧ segment'.load address = .ok header ∧
        segment'.readBytes address unit =
          .ok (LittleEndian.encode wordBytes header.next ++
            LittleEndian.encode wordBytes header.size) ∧
        ∀ x, x < address ∨ address + unit ≤ x →
          segment'.memory.byteAt x = segment.memory.byteAt x) ∧
    (∃ header segment', segment.load address = .ok header ∧
      (store address header).Yields segment (.ok ()) segment' ∧ segment.SameBytes segment') ∧
    (∀ other, segment.base ≤ other → other + unit ≤ segment.brk →
      (address + unit ≤ other ∨ other + unit ≤ address) → ∀ header header' : Header,
        header.next < wordBound ∧ header.size < wordBound →
        header'.next < wordBound ∧ header'.size < wordBound →
        ∃ first second,
          (do store address header; store other header').Yields segment (.ok ()) first ∧
          (do store other header'; store address header).Yields segment (.ok ()) second ∧
          first.SameBytes second) ∧
    ∀ header : Header, wordBound ≤ header.next ∨ wordBound ≤ header.size →
      (store address header segment).result =
        .error (.faulted (.wideWord
          (if wordBound ≤ header.next then header.next else header.size))) ∧
      ∀ place, (store place header segment).result ≠ .ok () := by
  have whole : 0 < unit := by decide
  have inside := (contains_iff_of_pos whole).2 ⟨low, high⟩
  refine ⟨?_, ?_, ?_, ?_⟩
  · intro header next size
    obtain ⟨segment', stored, extent, memory⟩ := yields_spell inside next size
    have inside' : segment'.contains address unit = true := (extent.contains _ _).trans inside
    refine ⟨segment', stored, extent, ?_, ?_, ?_⟩
    · rw [load_eq inside', memory, headerAt_spell next size]
    · have back := Memory.read_write segment.memory address (spell header)
      rw [length_spell] at back
      rw [readBytes, if_pos inside', memory, back, spell]
    · intro x outside
      rw [memory]
      exact Memory.byteAt_write_of_outside _ _ _ _ (by simpa using outside)
  · obtain ⟨segment', stored, same⟩ := yields_store_load inside
    exact ⟨_, segment', load_eq inside, stored, same⟩
  · intro other low' high' apart header header' fits fits'
    exact store_comm inside ((contains_iff_of_pos whole).2 ⟨low', high'⟩) apart fits fits'
  · intro header wide
    refine ⟨store_wide inside wide, fun place stored => ?_⟩
    obtain ⟨next, size⟩ := store_fits stored
    omega

/-- Two headers side by side at odd addresses. -/
theorem header_codec_side_by_side :
    let segment := (extend 24 default).state
    segment.base ≤ 0x10040003 ∧ 0x10040003 + unit ≤ segment.brk ∧
      (∃ segment', (store 0x10040003 { size := 3, next := 0x10040040 }).Yields segment (.ok ())
          segment' ∧
        segment'.readBytes 0x10040003 unit = .ok [0x40, 0x00, 0x04, 0x10, 0x03, 0x00, 0x00, 0x00]) ∧
      (∃ first second,
        (do store 0x10040003 { size := 3, next := 0x10040040 }
            store 0x1004000b { size := 0xffffffff, next := 8 }).Yields segment (.ok ()) first ∧
        (do store 0x1004000b { size := 0xffffffff, next := 8 }
            store 0x10040003 { size := 3, next := 0x10040040 }).Yields segment (.ok ()) second ∧
        first.SameBytes second) ∧
      (store 0x10040003 { size := 0x100000000, next := 8 } segment).result =
        .error (.faulted (.wideWord 0x100000000)) := by
  intro segment
  have low : segment.base ≤ 0x10040003 := by decide
  have high : 0x10040003 + unit ≤ segment.brk := by decide
  obtain ⟨roundtrip, -, commute, wide⟩ := header_codec low high
  obtain ⟨segment', stored, -, -, bytes, -⟩ :=
    roundtrip { size := 3, next := 0x10040040 } (by decide) (by decide)
  refine ⟨low, high, ⟨segment', stored, bytes⟩, ?_, (wide _ (by decide)).1⟩
  exact commute 0x1004000b (by decide) (by decide) (by decide) _ _ (by decide) (by decide)

end NextFit.Segment
