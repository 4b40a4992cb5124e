import Std.Data.TreeMap.Lemmas
import NextFit.LittleEndian

/-! # Byte memory

A byte for every address. Memory starts out as zeros, and only the bytes that were written are kept.
`byteAt` is the view of a memory; every write is described by what it does to that view.
-/

namespace NextFit

/-- A memory in which all but finitely many bytes are zero. -/
structure Memory where
  written : Std.TreeMap Nat UInt8

namespace Memory

def blank : Memory := { written := ∅ }

def byteAt (memory : Memory) (address : Nat) : UInt8 :=
  memory.written.getD address 0

def writeByte (memory : Memory) (address : Nat) (b : UInt8) : Memory :=
  { written := memory.written.insert address b }

def write (memory : Memory) (address : Nat) : List UInt8 → Memory
  | [] => memory
  | b :: rest => (memory.writeByte address b).write (address + 1) rest

/-- The `length` bytes from an address on. -/
def read (memory : Memory) (address length : Nat) : List UInt8 :=
  (List.range length).map fun index => memory.byteAt (address + index)

/-- The little-endian word of `width` bytes at an address. -/
def readWord (memory : Memory) (width address : Nat) : Nat :=
  LittleEndian.decode (memory.read address width)

def writeWord (memory : Memory) (width address value : Nat) : Memory :=
  memory.write address (LittleEndian.encode width value)

@[simp] theorem byteAt_blank (address : Nat) : blank.byteAt address = 0 := by
  simp [blank, byteAt]

theorem byteAt_writeByte (memory : Memory) (address query : Nat) (b : UInt8) :
    (memory.writeByte address b).byteAt query =
      if address = query then b else memory.byteAt query := by
  simp [writeByte, byteAt, Std.TreeMap.getD_insert]

/-- A write changes no byte outside its range. -/
theorem byteAt_write_of_outside (memory : Memory) (address query : Nat) (bs : List UInt8)
    (outside : query < address ∨ address + bs.length ≤ query) :
    (memory.write address bs).byteAt query = memory.byteAt query := by
  induction bs generalizing memory address with
  | nil => rfl
  | cons b rest ih =>
      simp only [List.length_cons] at outside
      rw [write, ih _ _ (by omega), byteAt_writeByte, if_neg (by omega)]

/-- A write puts each byte at its place. -/
theorem byteAt_write_inside (memory : Memory) (address index : Nat) (bs : List UInt8)
    (inside : index < bs.length) :
    (memory.write address bs).byteAt (address + index) = bs[index] := by
  induction bs generalizing memory address index with
  | nil => simp at inside
  | cons b rest ih =>
      cases index with
      | zero =>
          rw [write, byteAt_write_of_outside _ _ _ _ (.inl (by omega)), byteAt_writeByte,
            if_pos (Nat.add_zero _).symm]
          rfl
      | succ index =>
          have shift : address + (index + 1) = address + 1 + index := by omega
          rw [write, shift, ih _ _ _ (by simpa using inside)]
          rfl

theorem write_append (memory : Memory) (address : Nat) (bs more : List UInt8) :
    memory.write address (bs ++ more) =
      (memory.write address bs).write (address + bs.length) more := by
  induction bs generalizing memory address with
  | nil => rfl
  | cons b rest ih =>
      have shift : address + 1 + rest.length = address + (rest.length + 1) := by omega
      rw [List.cons_append, write, ih, shift]
      rfl

/-- What a write puts at an address depends on no other byte. -/
theorem byteAt_write_congr {first second : Memory} {query : Nat}
    (same : first.byteAt query = second.byteAt query) (address : Nat) (bs : List UInt8) :
    (first.write address bs).byteAt query = (second.write address bs).byteAt query := by
  induction bs generalizing first second address with
  | nil => exact same
  | cons b rest ih =>
      apply ih
      rw [byteAt_writeByte, byteAt_writeByte, same]

/-- Writes that share no byte may be made in either order. -/
theorem byteAt_write_comm (memory : Memory) {address other : Nat} {bs cs : List UInt8}
    (apart : address + bs.length ≤ other ∨ other + cs.length ≤ address) (query : Nat) :
    ((memory.write address bs).write other cs).byteAt query =
      ((memory.write other cs).write address bs).byteAt query := by
  by_cases inside : other ≤ query ∧ query < other + cs.length
  · rw [byteAt_write_of_outside _ address _ _ (by omega)]
    exact byteAt_write_congr (byteAt_write_of_outside _ _ _ _ (by omega)) other cs
  · rw [byteAt_write_of_outside _ other _ _ (by omega)]
    exact (byteAt_write_congr (byteAt_write_of_outside _ _ _ _ (by omega)) address bs).symm

@[simp] theorem length_read (memory : Memory) (address length : Nat) :
    (memory.read address length).length = length := by
  simp [read]

theorem read_write (memory : Memory) (address : Nat) (bs : List UInt8) :
    (memory.write address bs).read address bs.length = bs := by
  apply List.ext_getElem
  · simp
  · intro index _ inside
    simpa [read] using byteAt_write_inside memory address index bs inside

theorem read_congr {first second : Memory} {address length : Nat}
    (same : ∀ query, address ≤ query → query < address + length →
      first.byteAt query = second.byteAt query) :
    first.read address length = second.read address length := by
  simp only [read, List.map_inj_left, List.mem_range]
  intro index inside
  exact same _ (Nat.le_add_right ..) (by omega)

theorem read_add (memory : Memory) (address first second : Nat) :
    memory.read address (first + second) =
      memory.read address first ++ memory.read (address + first) second := by
  simp only [read, List.range_add, List.map_append, List.map_map, Function.comp_def, Nat.add_assoc]

/-- Two reads of one range differ if a byte does. -/
theorem byteAt_eq_of_read_eq {first second : Memory} {address length query : Nat}
    (same : first.read address length = second.read address length) (low : address ≤ query)
    (high : query < address + length) : first.byteAt query = second.byteAt query := by
  simp only [read, List.map_inj_left, List.mem_range] at same
  have place : address + (query - address) = query := Nat.add_sub_cancel' low
  rw [← place]
  exact same _ (by omega)

/-- To write what is there already changes no byte. -/
theorem byteAt_write_read (memory : Memory) (address length query : Nat) :
    (memory.write address (memory.read address length)).byteAt query = memory.byteAt query := by
  by_cases inside : address ≤ query ∧ query < address + length
  · have back := read_write memory address (memory.read address length)
    rw [length_read] at back
    exact byteAt_eq_of_read_eq back inside.1 inside.2
  · exact byteAt_write_of_outside _ _ _ _ (by rw [length_read]; omega)

/-- A word stands for its bytes. -/
theorem encode_readWord (memory : Memory) (width address : Nat) :
    LittleEndian.encode width (memory.readWord width address) = memory.read address width := by
  have back := LittleEndian.encode_decode (memory.read address width)
  rwa [length_read] at back

theorem readWord_lt (memory : Memory) (width address : Nat) :
    memory.readWord width address < LittleEndian.bound width := by
  have fits := LittleEndian.decode_lt (memory.read address width)
  rwa [length_read] at fits

/-- A word that was written and fits its width reads back. -/
theorem readWord_writeWord {memory : Memory} {width address value : Nat}
    (fits : value < LittleEndian.bound width) :
    (memory.writeWord width address value).readWord width address = value := by
  have back := read_write memory address (LittleEndian.encode width value)
  rw [LittleEndian.length_encode] at back
  rw [readWord, writeWord, back, LittleEndian.decode_encode, Nat.mod_eq_of_lt fits]

/-- Reading a word does not see writes elsewhere. -/
theorem readWord_write_of_apart {memory : Memory} {width address target : Nat} {bs : List UInt8}
    (apart : address + width ≤ target ∨ target + bs.length ≤ address) :
    (memory.write target bs).readWord width address = memory.readWord width address := by
  rw [readWord, readWord, read_congr]
  intro query low high
  exact byteAt_write_of_outside _ _ _ _ (by omega)

end Memory

end NextFit
