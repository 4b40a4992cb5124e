import NextFit.Proofs.FreeBlock.Cells
import NextFit.Proofs.FreeBlock.Cut

/-! # A free list is determined by its bytes

Neighbours of a separated list never touch, so each block of it is a maximal run of free bytes. Two
separated lists with the same bytes are therefore the same list, however they came about.
-/

namespace NextFit.FreeBlock

variable {unit x : Nat} {b c : FreeBlock} {blocks others : List FreeBlock}

theorem occupied_cons :
    Occupied unit (b :: blocks) x ↔ x ∈ b.span unit ∨ Occupied unit blocks x := by
  simp [Occupied]

/-- Behind the first block of a separated list there is a gap. -/
theorem stop_lt_of_occupied (separated : Separated unit (b :: blocks))
    (h : Occupied unit blocks x) : b.stop unit < x := by
  obtain ⟨c, mem, low, -⟩ := h
  exact Nat.lt_of_lt_of_le ((List.pairwise_cons.1 separated).1 c mem) low

theorem address_le_of_occupied (separated : Separated unit (b :: blocks))
    (h : Occupied unit (b :: blocks) x) : b.address ≤ x := by
  rcases occupied_cons.1 h with ⟨low, -⟩ | later
  · exact low
  · have gap := stop_lt_of_occupied separated later
    simp only [stop] at gap
    omega

theorem address_mem_span (positive : 0 < unit) (nonempty : 0 < b.size) :
    b.address ∈ b.span unit := by
  have bytes := Nat.mul_pos nonempty positive
  refine ⟨Nat.le_refl _, ?_⟩
  simp only [span, stop]
  omega

theorem occupied_address (positive : 0 < unit) (nonempty : 0 < b.size) (blocks : List FreeBlock) :
    Occupied unit (b :: blocks) b.address :=
  ⟨b, List.mem_cons_self, address_mem_span positive nonempty⟩

/-- The first run of free bytes ends where the first block ends. -/
theorem not_occupied_stop (separated : Separated unit (b :: blocks)) :
    ¬ Occupied unit (b :: blocks) (b.stop unit) := by
  intro h
  rcases occupied_cons.1 h with ⟨-, high⟩ | later
  · exact Nat.lt_irrefl _ high
  · exact Nat.lt_irrefl _ (stop_lt_of_occupied separated later)

/-- Between two blocks of a separated list there is a gap, in the one order or the other. -/
theorem Separated.apart (h : Separated unit blocks) (memB : b ∈ blocks) (memC : c ∈ blocks)
    (distinct : b ≠ c) : b.stop unit < c.address ∨ c.stop unit < b.address := by
  induction blocks with
  | nil => exact absurd memB List.not_mem_nil
  | cons d rest ih =>
      obtain ⟨behind, others⟩ := List.pairwise_cons.1 h
      rcases List.mem_cons.1 memB with rfl | laterB
      · exact .inl (behind c (List.mem_of_ne_of_mem distinct.symm memC))
      · rcases List.mem_cons.1 memC with rfl | laterC
        · exact .inr (behind b laterB)
        · exact ih others laterB laterC

/-- Free bytes in a row are in one block. -/
theorem exists_cover (positive : 0 < unit) (nonempty : 0 < c.size) (separated : Separated unit blocks)
    (free : ∀ x ∈ c.span unit, Occupied unit blocks x) :
    ∃ b ∈ blocks, b.address ≤ c.address ∧ c.stop unit ≤ b.stop unit := by
  have start : c.address ∈ c.span unit := address_mem_span positive nonempty
  induction blocks with
  | nil =>
      obtain ⟨b, mem, -⟩ := free _ start
      exact absurd mem List.not_mem_nil
  | cons b rest ih =>
      cases Nat.lt_or_ge c.address (b.stop unit) with
      | inl within =>
          refine ⟨b, List.mem_cons_self, address_le_of_occupied separated (free _ start), ?_⟩
          rw [← Nat.not_lt]
          intro longer
          exact not_occupied_stop separated (free _ ⟨Nat.le_of_lt within, longer⟩)
      | inr behind =>
          obtain ⟨d, mem, low, high⟩ := ih (List.pairwise_cons.1 separated).2 fun x inside =>
            (occupied_cons.1 (free x inside)).resolve_left fun first =>
              Nat.lt_irrefl x (Nat.lt_of_lt_of_le first.2 (Nat.le_trans behind inside.1))
          exact ⟨d, List.mem_cons_of_mem _ mem, low, high⟩

/-- A block of a separated list starts where a run of free bytes does. -/
theorem exists_start_iff (positive : 0 < unit) (nonempty : ∀ b ∈ blocks, 0 < b.size)
    (separated : Separated unit blocks) (inner : 0 < x) :
    (∃ b ∈ blocks, b.address = x) ↔ Occupied unit blocks x ∧ ¬ Occupied unit blocks (x - 1) := by
  constructor
  · rintro ⟨b, mem, rfl⟩
    refine ⟨⟨b, mem, address_mem_span positive (nonempty b mem)⟩, ?_⟩
    rintro ⟨c, other, low, high⟩
    rcases Decidable.em (b = c) with rfl | distinct
    · simp only [span] at low
      omega
    · have gap := separated.apart mem other distinct
      simp only [span] at low high
      simp only [stop] at gap high
      omega
  · rintro ⟨⟨b, mem, low, high⟩, before⟩
    refine ⟨b, mem, Nat.le_antisymm low ?_⟩
    rw [← Nat.not_lt]
    intro inside
    exact before ⟨b, mem, Nat.le_sub_one_of_lt inside, Nat.lt_of_le_of_lt (Nat.sub_le _ _) high⟩

theorem stop_le_of_same (separated : Separated unit (b :: blocks)) (head : b.address = c.address)
    (same : ∀ x, Occupied unit (b :: blocks) x ↔ Occupied unit (c :: others) x) :
    c.stop unit ≤ b.stop unit := by
  rw [← Nat.not_lt]
  intro longer
  have inside : b.stop unit ∈ c.span unit := by
    refine ⟨?_, longer⟩
    simp only [span, stop, ← head]
    exact Nat.le_add_right _ _
  exact not_occupied_stop separated ((same _).2 (occupied_cons.2 (.inl inside)))

theorem eq_of_occupied (positive : 0 < unit) (nonempty : ∀ b ∈ blocks, 0 < b.size)
    (nonempty' : ∀ b ∈ others, 0 < b.size) (separated : Separated unit blocks)
    (separated' : Separated unit others)
    (same : ∀ x, Occupied unit blocks x ↔ Occupied unit others x) : blocks = others := by
  induction blocks generalizing others with
  | nil =>
      cases others with
      | nil => rfl
      | cons c rest =>
          have first := occupied_address positive (nonempty' c List.mem_cons_self) rest
          obtain ⟨b, mem, -⟩ := (same _).2 first
          exact absurd mem List.not_mem_nil
  | cons b rest ih =>
      have first := occupied_address positive (nonempty b List.mem_cons_self) rest
      cases others with
      | nil =>
          obtain ⟨c, mem, -⟩ := (same _).1 first
          exact absurd mem List.not_mem_nil
      | cons c rest' =>
          have first' := occupied_address positive (nonempty' c List.mem_cons_self) rest'
          have head : b.address = c.address := Nat.le_antisymm
            (address_le_of_occupied separated ((same _).2 first'))
            (address_le_of_occupied separated' ((same _).1 first))
          have ends : b.stop unit = c.stop unit := Nat.le_antisymm
            (stop_le_of_same separated' head.symm fun x => (same x).symm)
            (stop_le_of_same separated head same)
          have size : b.size = c.size := by
            simp only [stop, head, Nat.add_left_cancel_iff] at ends
            exact Nat.eq_of_mul_eq_mul_right positive ends
          obtain rfl : b = c := by
            cases b
            cases c
            simp_all
          congr 1
          -- Behind the common first block, a byte is free in the one list if it is in the other.
          refine ih (fun d mem => nonempty d (List.mem_cons_of_mem _ mem))
            (fun d mem => nonempty' d (List.mem_cons_of_mem _ mem))
            (List.pairwise_cons.1 separated).2 (List.pairwise_cons.1 separated').2 ?_
          intro x
          constructor
          · intro later
            have gap := stop_lt_of_occupied separated later
            apply (occupied_cons.1 ((same x).1 (occupied_cons.2 (.inr later)))).resolve_left
            exact fun inside => Nat.lt_asymm gap inside.2
          · intro later
            have gap := stop_lt_of_occupied separated' later
            apply (occupied_cons.1 ((same x).2 (occupied_cons.2 (.inr later)))).resolve_left
            exact fun inside => Nat.lt_asymm gap inside.2

end NextFit.FreeBlock
