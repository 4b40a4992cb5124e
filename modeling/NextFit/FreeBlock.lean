/-! # Free blocks

A free list without its links is a list of blocks in address order in which neighbours never touch.
`release` puts a block into such a list, and `nextFit?` and `carve` say which block serves a request
and what is left of the list. Releasing keeps the form (`separated_release`) and adds just the units of
the block (`units_release`).
-/

namespace NextFit

/-- A block on the free list. -/
structure FreeBlock where
  address : Nat
  /-- In header units. -/
  size : Nat
  deriving Repr, DecidableEq

namespace FreeBlock

/-- The address behind the last byte. -/
def stop (unit : Nat) (block : FreeBlock) : Nat :=
  block.address + block.size * unit

/-- One block ends before the other starts, with a gap between them. -/
def Precedes (unit : Nat) (block other : FreeBlock) : Prop :=
  block.stop unit < other.address

/-- Address order with a gap between any two blocks. -/
def Separated (unit : Nat) (blocks : List FreeBlock) : Prop :=
  blocks.Pairwise (Precedes unit)

/-- Two blocks share no byte. -/
def Disjoint (unit : Nat) (block other : FreeBlock) : Prop :=
  block.stop unit ≤ other.address ∨ other.stop unit ≤ block.address

instance (unit : Nat) (block other : FreeBlock) : Decidable (Precedes unit block other) :=
  inferInstanceAs (Decidable (_ < _))

instance (unit : Nat) (blocks : List FreeBlock) : Decidable (Separated unit blocks) :=
  inferInstanceAs (Decidable (List.Pairwise _ _))

instance (unit : Nat) (block other : FreeBlock) : Decidable (Disjoint unit block other) :=
  inferInstanceAs (Decidable (_ ∨ _))

/-- All units of a list. -/
def units : List FreeBlock → Nat
  | [] => 0
  | block :: rest => block.size + units rest

/-- Put a block in front of a list. If it ends where the first block starts, they become one. -/
def pushFront (unit : Nat) (block : FreeBlock) : List FreeBlock → List FreeBlock
  | [] => [block]
  | first :: rest =>
      if block.stop unit = first.address then
        { address := block.address, size := block.size + first.size } :: rest
      else block :: first :: rest

/-- Put a block at its place in address order. Blocks that touch become one. -/
def release (unit : Nat) (block : FreeBlock) : List FreeBlock → List FreeBlock
  | [] => [block]
  | first :: rest =>
      if block.address < first.address then pushFront unit block (first :: rest)
      else pushFront unit first (release unit block rest)

/-- The blocks in the order of a lap that starts behind `cursor`. -/
def lap (cursor : Nat) (blocks : List FreeBlock) : List FreeBlock :=
  blocks.filter (cursor < ·.address) ++ blocks.filter (·.address ≤ cursor)

/-- The first block on a lap that has enough units. -/
def nextFit? (units cursor : Nat) (blocks : List FreeBlock) : Option FreeBlock :=
  (lap cursor blocks).find? (units ≤ ·.size)

/-- Take units from the block at an address: the whole block if it has no more than these, else its
    tail. -/
def carve (units address : Nat) (blocks : List FreeBlock) : List FreeBlock :=
  blocks.filterMap fun block =>
    if block.address ≠ address then some block
    else if block.size ≤ units then none
    else some { block with size := block.size - units }

variable {unit : Nat}

theorem units_pushFront (block : FreeBlock) (blocks : List FreeBlock) :
    units (pushFront unit block blocks) = block.size + units blocks := by
  cases blocks with
  | nil => rfl
  | cons first rest =>
      simp only [pushFront]
      split <;> simp [units, Nat.add_assoc]

/-- No unit is lost or counted twice when a block is released. -/
theorem units_release (block : FreeBlock) (blocks : List FreeBlock) :
    units (release unit block blocks) = block.size + units blocks := by
  induction blocks with
  | nil => rfl
  | cons first rest ih =>
      simp only [release]
      split
      · exact units_pushFront block (first :: rest)
      · rw [units_pushFront, ih]
        simp only [units]
        omega

/-- A block in front of a separated list keeps it separated if the block ends at or before the first
    one. -/
theorem separated_pushFront {block : FreeBlock} {blocks : List FreeBlock}
    (separated : Separated unit blocks) (before : ∀ b ∈ blocks, block.stop unit ≤ b.address) :
    Separated unit (pushFront unit block blocks) := by
  cases blocks with
  | nil => exact List.pairwise_singleton _ _
  | cons first rest =>
      obtain ⟨gaps, tail⟩ := List.pairwise_cons.1 separated
      simp only [pushFront]
      split
      case isTrue touch =>
        refine List.pairwise_cons.2 ⟨fun b mem => ?_, tail⟩
        have gap := gaps b mem
        simp only [Precedes, stop, Nat.add_mul] at gap touch ⊢
        omega
      case isFalse apart =>
        refine List.pairwise_cons.2 ⟨fun b mem => ?_, separated⟩
        have head := before first List.mem_cons_self
        rcases List.mem_cons.1 mem with rfl | later
        · exact Nat.lt_of_le_of_ne head apart
        · have gap := gaps b later
          simp only [Precedes, stop] at gap head ⊢
          omega

/-- Every block of the result starts where one of the given blocks starts. -/
theorem exists_address_of_mem_release {block b : FreeBlock} {blocks : List FreeBlock}
    (mem : b ∈ release unit block blocks) :
    b.address = block.address ∨ ∃ old ∈ blocks, old.address = b.address := by
  induction blocks generalizing b with
  | nil => exact .inl (by rw [List.mem_singleton.1 mem])
  | cons first rest ih =>
      have pushed : ∀ {front : FreeBlock} {list : List FreeBlock},
          b ∈ pushFront unit front list → b.address = front.address ∨ b ∈ list := by
        intro front list h
        cases list with
        | nil => exact .inl (by rw [List.mem_singleton.1 h])
        | cons c cs =>
            simp only [pushFront] at h
            split at h
            · rcases List.mem_cons.1 h with rfl | later
              · exact .inl rfl
              · exact .inr (List.mem_cons_of_mem _ later)
            · rcases List.mem_cons.1 h with rfl | later
              · exact .inl rfl
              · exact .inr later
      simp only [release] at mem
      split at mem
      · rcases pushed mem with same | old
        · exact .inl same
        · exact .inr ⟨b, old, rfl⟩
      · rcases pushed mem with same | old
        · exact .inr ⟨first, List.mem_cons_self, same.symm⟩
        · rcases ih old with same | ⟨old, mem, same⟩
          · exact .inl same
          · exact .inr ⟨old, List.mem_cons_of_mem _ mem, same⟩

/-- A released block that shares no byte with the list leaves it separated. -/
theorem separated_release {block : FreeBlock} {blocks : List FreeBlock} (positive : 0 < unit)
    (nonempty : ∀ b ∈ block :: blocks, 0 < b.size) (separated : Separated unit blocks)
    (disjoint : ∀ b ∈ blocks, Disjoint unit block b) :
    Separated unit (release unit block blocks) := by
  induction blocks with
  | nil => exact List.pairwise_singleton _ _
  | cons first rest ih =>
      obtain ⟨gaps, tail⟩ := List.pairwise_cons.1 separated
      have blockBytes : 0 < block.size * unit :=
        Nat.mul_pos (nonempty block List.mem_cons_self) positive
      have firstBytes : 0 < first.size * unit :=
        Nat.mul_pos (nonempty first (List.mem_cons_of_mem _ List.mem_cons_self)) positive
      have firstApart := disjoint first List.mem_cons_self
      simp only [release]
      split
      case isTrue low =>
        have ends : block.stop unit ≤ first.address := by
          simp only [Disjoint, stop] at firstApart ⊢
          omega
        refine separated_pushFront separated fun b mem => ?_
        rcases List.mem_cons.1 mem with rfl | later
        · exact ends
        · have gap := gaps b later
          simp only [Precedes, stop] at gap ends ⊢
          omega
      case isFalse high =>
        have starts : first.stop unit ≤ block.address := by
          simp only [Disjoint, stop] at firstApart ⊢
          omega
        refine separated_pushFront (ih ?_ tail ?_) fun b mem => ?_
        · intro b mem
          rcases List.mem_cons.1 mem with rfl | later
          · exact nonempty _ List.mem_cons_self
          · exact nonempty b (List.mem_cons_of_mem _ (List.mem_cons_of_mem _ later))
        · exact fun b mem => disjoint b (List.mem_cons_of_mem _ mem)
        · rcases exists_address_of_mem_release mem with same | ⟨old, mem, same⟩
          · rw [same]
            exact starts
          · rw [← same]
            exact Nat.le_of_lt (gaps old mem)

end FreeBlock

end NextFit
