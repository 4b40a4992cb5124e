import NextFit.Proofs.FreeBlock.Relocation
import NextFit.Proofs.Heap.Layout

/-! # Layouts that move

If a heap has the layout of another one at a different place, and its arena replies as the other one
does but for the place, then its allocations end the same way but for the place.
-/

namespace NextFit.Layout

variable {move : Relocation} {unit units size : Nat} {reply reply' : Nat → Except Failure Nat}
  {layout rest : Layout} {b : FreeBlock} {result : Except Failure Nat} {granted : List Region}

def relocate (move : Relocation) (layout : Layout) : Layout :=
  { layout with
    free := FreeBlock.relocate move layout.free
    start := move.apply layout.start }

/-- All that the layout leads to is the sentinel or lies in the memory that moves. -/
structure Inside (move : Relocation) (layout : Layout) : Prop where
  free : ∀ b ∈ layout.free, move.base ≤ b.address
  start : move.Covers layout.start

theorem Inside.release (unit : Nat) (h : layout.Inside move) (low : move.base ≤ b.address) :
    (layout.release unit b).Inside move where
  free := FreeBlock.base_le_release (List.forall_mem_cons.2 ⟨low, h.free⟩)
  start := FreeBlock.covers_below h.free

theorem Inside.grow (unit : Nat) (h : layout.Inside move) (low : move.base ≤ b.address) :
    (layout.grow unit b).Inside move where
  free := (h.release unit low).free
  start := (h.release unit low).start

theorem release_relocate (h : layout.Inside move) (low : move.base ≤ b.address) :
    (layout.relocate move).release unit (b.mapAddresses move.apply) =
      (layout.release unit b).relocate move := by
  have freed := FreeBlock.release_relocate unit (List.forall_mem_cons.2 ⟨low, h.free⟩)
  have start := FreeBlock.below_relocate h.free (.inr low)
  simp only [relocate, release, freed]
  exact congrArg (Layout.mk _ · _ _ _) start

theorem grow_relocate (h : layout.Inside move) (low : move.base ≤ b.address) :
    (layout.relocate move).grow unit (b.mapAddresses move.apply) =
      (layout.grow unit b).relocate move := by
  rw [grow, release_relocate h low]
  rfl

theorem take?_relocate (unit units : Nat) (h : layout.Inside move) :
    (layout.relocate move).take? unit units =
      (layout.take? unit units).map fun (block, rest) => (move.apply block, rest.relocate move) := by
  simp only [take?, relocate, FreeBlock.nextFit?_relocate h.free h.start, Option.map_map]
  cases found : FreeBlock.nextFit? units layout.start layout.free with
  | none => rfl
  | some b =>
      have low := h.free b (FreeBlock.nextFit?_spec found).1
      have carved := FreeBlock.carve_relocate h.free units (.inr low)
      have start := FreeBlock.below_relocate h.free (.inr low)
      have tail : move.apply (b.tail unit units).address =
          (FreeBlock.tail unit units (b.mapAddresses move.apply)).address :=
        Relocation.apply_add low _
      simp only [Option.map_some, Function.comp_apply, tail]
      simp only [FreeBlock.mapAddresses, carved, start]

theorem base_le_of_take? {block : Nat} (h : layout.Inside move)
    (found : layout.take? unit units = some (block, rest)) : move.base ≤ block := by
  obtain ⟨b, fit, same⟩ := Option.map_eq_some_iff.1 found
  cases same
  exact Nat.le_add_right_of_le (h.free b (FreeBlock.nextFit?_spec fit).1)

section Replies

variable (h : layout.Inside move)
  (same : ∀ bytes, reply' bytes = (reply bytes).map move.apply)
  (low : ∀ bytes base, reply bytes = .ok base → move.base ≤ base)

include h low

theorem Acquires.base_le {block : Nat}
    (acquires : layout.Acquires unit reply units (.ok block) rest granted) : move.base ≤ block := by
  cases acquires with
  | found first => exact base_le_of_take? h first
  | extended _ _ answer second => exact base_le_of_take? (h.grow unit (low _ _ answer)) second

include same

theorem Acquires.relocate (acquires : layout.Acquires unit reply units result rest granted) :
    ∃ granted', (layout.relocate move).Acquires unit reply' units (result.map move.apply)
      (rest.relocate move) granted' := by
  have taken := take?_relocate unit units h
  have answer := same (layout.demand units * unit)
  cases acquires with
  | found first =>
      rw [first] at taken
      exact ⟨_, .found taken⟩
  | overlarge none large =>
      rw [none] at taken
      exact ⟨_, .overlarge taken large⟩
  | declined none fits refused =>
      rw [none] at taken
      rw [refused] at answer
      exact ⟨_, .declined taken fits answer⟩
  | @extended base block rest none fits granted second =>
      rw [none] at taken
      rw [granted] at answer
      have inside := low _ _ granted
      have retaken := take?_relocate unit units
        (h.grow unit (b := ⟨base, layout.demand units⟩) inside)
      rw [← grow_relocate h inside, second] at retaken
      exact ⟨_, .extended taken fits answer retaken⟩

theorem Allocates.relocate (allocates : layout.Allocates unit reply size result rest granted) :
    ∃ granted', (layout.relocate move).Allocates unit reply' size (result.map move.apply)
      (rest.relocate move) granted' := by
  cases allocates with
  | oversized large => exact ⟨_, .oversized large⟩
  | @served result _ _ fits acquires =>
      obtain ⟨granted', acquires'⟩ := acquires.relocate h same low
      refine ⟨granted', ?_⟩
      have payload : (result.map move.apply).map (· + unit) = (result.map (· + unit)).map move.apply := by
        cases result with
        | error failure => rfl
        | ok block => exact congrArg Except.ok (Relocation.apply_add (acquires.base_le h low) _).symm
      exact payload ▸ .served fits acquires'

end Replies

end NextFit.Layout
