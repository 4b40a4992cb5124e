import Std.Data.TreeMap.Lemmas
import NextFit.Proofs.Agreement
import NextFit.Proofs.Arena.Segment

/-! # Ideal arenas

An ideal arena has no bytes. It keeps each header whole at its address, with fields of any size, and
filling changes nothing. A list says in advance how the extensions end, so an ideal arena promises
nothing about the memory that it grants. A shadowed segment is an ideal arena beside a segment that
decides about its extensions, and it is lawful because the segment is.
-/

namespace NextFit

/-- An arena without bytes whose extensions end as the replies say. -/
structure IdealArena where
  /-- How the extensions to come end. -/
  replies : List (Except Failure Nat) := []
  regions : List Region := []
  headers : Std.TreeMap Nat Header := ∅

namespace IdealArena

def unit : Nat := 8

/-- Take in what an extension by so many bytes was granted. -/
def grow (bytes : Nat) (reply : Except Failure Nat) (arena : IdealArena) : IdealArena :=
  match reply with
  | .ok base =>
      { arena with regions := arena.regions ++ [{ start := base, stop := base + bytes }] }
  | .error _ => arena

/-- End as the next reply says. Behind the last one there is no more memory. -/
def extend (bytes : Nat) : Op IdealArena Nat := fun arena =>
  match arena.replies with
  | reply :: replies => { result := reply, state := grow bytes reply { arena with replies } }
  | [] => Op.refuse (.outOfMemory bytes) arena

/-- Whether each of the bytes lies in some region. -/
def contains (arena : IdealArena) (address length : Nat) : Bool :=
  (List.range length).all fun index => arena.regions.any (·.contains (address + index) 1)

def load (arena : IdealArena) (address : Nat) : Except Fault Header :=
  match arena.headers[address]? with
  | some header => .ok header
  | none => .error (.missingHeader address)

def insert (address : Nat) (header : Header) (arena : IdealArena) : IdealArena :=
  { arena with headers := arena.headers.insert address header }

instance : Arena IdealArena where
  unit
  extend
  contains
  load
  store address header := Op.update (insert address header)
  fill _ _ _ := pure ()

variable {arena : IdealArena} {ledger : Ledger} {address length : Nat} {header : Header}

theorem contains_eq_true_iff : arena.contains address length = true ↔
    ∀ x, address ≤ x → x < address + length → ∃ region ∈ arena.regions, x ∈ region := by
  simp only [contains, List.all_eq_true, List.mem_range, List.any_eq_true,
    Region.contains_eq_true_iff, Region.mem_def, Nat.add_one_le_iff]
  constructor
  · intro each x low high
    have inside := each (x - address) (by omega)
    rwa [Nat.add_sub_cancel' low] at inside
  · intro each index less
    exact each _ (Nat.le_add_right _ _) (by omega)

/-- The arena is as the ledger says. -/
structure Keeps (arena : IdealArena) (ledger : Ledger) : Prop where
  regions : arena.regions = ledger.regions
  headers : ∀ address header, ledger.header? address = some header →
    arena.headers[address]? = some header

namespace Keeps

theorem grow (h : arena.Keeps ledger) (base bytes : Nat) :
    (arena.grow bytes (.ok base)).Keeps (ledger.grant base bytes) where
  regions := congrArg (· ++ _) h.regions
  headers := h.headers

theorem contains (h : arena.Keeps ledger)
    (within : ∀ x, address ≤ x → x < address + length → ∃ region ∈ ledger.regions, x ∈ region) :
    arena.contains address length = true :=
  contains_eq_true_iff.2 (h.regions ▸ within)

theorem load (h : arena.Keeps ledger) (known : ledger.header? address = some header) :
    arena.load address = .ok header := by
  rw [IdealArena.load, h.headers address header known]

theorem insert (h : arena.Keeps ledger) (address : Nat) (header : Header) :
    (arena.insert address header).Keeps (ledger.write unit address header) where
  regions := h.regions
  headers := by
    intro query known found
    rw [IdealArena.insert, Std.TreeMap.getElem?_insert]
    by_cases same : query = address
    · subst same
      rw [Ledger.header?_write_self] at found
      simpa using found
    · have old := (Ledger.header?_overwrite_eq_some.1 ((if_neg same).symm.trans found)).2
      simpa [Ne.symm same] using h.headers query known old

theorem overwrite (h : arena.Keeps ledger) (address count : Nat) :
    arena.Keeps (ledger.overwrite unit address count) where
  regions := h.regions
  headers query known found :=
    h.headers query known (Ledger.header?_overwrite_eq_some.1 found).2

end Keeps

end IdealArena

/-- A segment that only decides about extensions, and an ideal arena with their memory. -/
structure ShadowedSegment where
  segment : Segment
  ideal : IdealArena := {}

namespace ShadowedSegment

def inIdeal {α : Type} (op : Op IdealArena α) : Op ShadowedSegment α :=
  op.on (·.ideal) fun shadowed ideal => { shadowed with ideal }

def extend (bytes : Nat) : Op ShadowedSegment Nat := fun shadowed =>
  let outcome := Segment.extend bytes shadowed.segment
  { result := outcome.result
    state := {
      segment := outcome.state
      ideal := shadowed.ideal.grow bytes outcome.result } }

instance : Arena ShadowedSegment where
  unit := IdealArena.unit
  extend
  contains shadowed := shadowed.ideal.contains
  load shadowed := shadowed.ideal.load
  store address header := inIdeal (Arena.store address header)
  fill address value count := inIdeal (Arena.fill address value count)

theorem unit_eq : Arena.unit ShadowedSegment = Arena.unit Segment :=
  rfl

theorem unit_eq_ideal : Arena.unit ShadowedSegment = Arena.unit IdealArena :=
  rfl

theorem reply_eq (shadowed : ShadowedSegment) :
    Arena.reply shadowed = Arena.reply shadowed.segment :=
  rfl

structure Keeps (origin : Segment) (shadowed : ShadowedSegment) (ledger : Ledger) : Prop where
  segment : Segment.KeepsWithin origin.brk origin shadowed.segment { regions := ledger.regions }
  ideal : shadowed.ideal.Keeps ledger

theorem keeps_empty (segment : Segment) : Keeps segment { segment } {} where
  segment := segment.keepsWithin_empty
  ideal := ⟨rfl, nofun⟩

theorem laws (origin : Segment) : Arena.Laws (Keeps origin) where
  unit_pos := by decide
  granted := by
    intro shadowed shadowed' ledger bytes base keeps answered
    obtain ⟨answer, rfl⟩ := answered
    have asked : (Arena.extend bytes).Yields shadowed.segment (.ok base) _ := ⟨answer, rfl⟩
    obtain ⟨nonzero, ends, fresh, kept⟩ :=
      (Segment.laws_within origin.brk origin).granted keeps.segment asked
    refine ⟨nonzero, ends, fresh, kept, ?_⟩
    have grown := keeps.ideal.grow base bytes
    rwa [← show (Segment.extend bytes shadowed.segment).result = .ok base from answer] at grown
  refused := by
    intro shadowed shadowed' ledger bytes failure keeps answered
    obtain ⟨answer, rfl⟩ := answered
    have asked : (Arena.extend bytes).Yields shadowed.segment (.error failure) _ := ⟨answer, rfl⟩
    refine ⟨(Segment.laws_within origin.brk origin).refused keeps.segment asked, ?_⟩
    have kept : (shadowed.ideal.grow bytes (.error failure)).Keeps ledger := keeps.ideal
    rwa [← show (Segment.extend bytes shadowed.segment).result = .error failure from answer] at kept
  contains := by
    intro shadowed ledger region address length keeps mem inside
    obtain ⟨first, last⟩ := Region.contains_eq_true_iff.1 inside
    exact keeps.ideal.contains fun x low high => ⟨region, mem, by omega, by omega⟩
  load keeps known := keeps.ideal.load known
  store keeps _ _ _ _ :=
    ⟨_, .on ⟨rfl, rfl⟩, keeps.segment, keeps.ideal.insert _ _⟩
  fill keeps _ := ⟨keeps.segment, keeps.ideal.overwrite _ _⟩

theorem fillable (origin : Segment) : Arena.Fillable (Keeps origin) := by
  intro shadowed ledger b address count value keeps wellFormed nonempty owned low high
  refine ⟨keeps.ideal.contains fun x first last => ?_, rfl⟩
  have inside : x ∈ b.span IdealArena.unit := ⟨Nat.le_trans low first, Nat.lt_of_lt_of_le last high⟩
  obtain ⟨y, cell, start, stop⟩ := FreeBlock.exists_cell (by decide) inside
  obtain ⟨region, mem, inside, -⟩ := wellFormed.exists_region (by decide) (owned cell)
  obtain ⟨above, below⟩ := Region.contains_eq_true_iff.1 inside
  exact ⟨region, mem, Nat.le_trans above start, Nat.lt_of_lt_of_le stop below⟩

/-- The ideal arena that has the memory of the shadowed segment, and further replies. -/
def Shadows (replies : List (Except Failure Nat)) (shadowed : ShadowedSegment) (ideal : IdealArena) :
    Prop :=
  ideal = { shadowed.ideal with replies }

theorem storesAlike (replies : List (Except Failure Nat)) : Arena.StoresAlike (Shadows replies) where
  unit := rfl
  contains same _ _ := by
    cases same
    rfl
  load same _ := by
    cases same
    rfl
  store same _ _ := by
    cases same
    exact ⟨rfl, rfl, rfl⟩
  fill same _ _ _ := by
    cases same
    exact ⟨rfl, rfl, rfl⟩

theorem extend_agrees {shadowed : ShadowedSegment} {ideal : IdealArena} {bytes : Nat}
    {replies : List (Except Failure Nat)}
    (same : Shadows (Arena.reply shadowed bytes :: replies) shadowed ideal) :
    (Arena.extend bytes).Agrees (Shadows replies) (Arena.extend bytes) shadowed ideal := by
  cases same
  refine ⟨rfl, rfl, ?_⟩
  show IdealArena.grow bytes (Segment.extend bytes shadowed.segment).result
      { shadowed.ideal with replies } =
    { shadowed.ideal.grow bytes (Segment.extend bytes shadowed.segment).result with replies }
  cases (Segment.extend bytes shadowed.segment).result <;> rfl

end ShadowedSegment

end NextFit
