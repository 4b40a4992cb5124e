import NextFit.Proofs.Arena.Segment

/-! # Memory with gaps

Of regions that ascend, the first start and the last stop tell in between which addresses they lie, but
not whether they leave gaps there. They leave none if and only if each region starts where the one before
it stops.
-/

namespace NextFit.Region

variable {regions : List Region} {region first last : Region} {address length : Nat}

/-- Every byte from an address on lies in one of the regions. -/
def Cover (regions : List Region) (address length : Nat) : Prop :=
  ∀ x, address ≤ x → x < address + length → ∃ region ∈ regions, x ∈ region

/-- The bytes from an address on lie between the start of the first region and the stop of the last
    one. -/
def Hull (regions : List Region) (address length : Nat) : Prop :=
  ∃ first ∈ regions.head?, ∃ last ∈ regions.getLast?,
    first.start ≤ address ∧ address + length ≤ last.stop

/-- Each region lies behind the ones before it. -/
structure Ascending (regions : List Region) : Prop where
  ordered : ∀ region ∈ regions, region.start ≤ region.stop
  pairwise : regions.Pairwise fun region later => region.stop ≤ later.start

namespace Ascending

theorem tail (h : Ascending (first :: regions)) : Ascending regions where
  ordered := fun region mem => h.ordered region (List.mem_cons_of_mem _ mem)
  pairwise := h.pairwise.of_cons

theorem start_le (h : Ascending regions) (head : first ∈ regions.head?) (mem : region ∈ regions) :
    first.start ≤ region.start := by
  cases regions with
  | nil => cases head
  | cons top rest =>
      cases head
      rcases List.mem_cons.1 mem with rfl | later
      · exact Nat.le_refl _
      · have ordered := h.ordered _ List.mem_cons_self
        exact Nat.le_trans ordered ((List.pairwise_cons.1 h.pairwise).1 region later)

theorem le_stop (h : Ascending regions) (end' : last ∈ regions.getLast?) (mem : region ∈ regions) :
    region.stop ≤ last.stop := by
  obtain ⟨before, rfl⟩ := List.getLast?_eq_some_iff.1 end'
  rcases List.mem_append.1 mem with earlier | same
  · have below := (List.pairwise_append.1 h.pairwise).2.2 region earlier last List.mem_cons_self
    exact Nat.le_trans below (h.ordered last (List.mem_append_right _ List.mem_cons_self))
  · cases List.mem_singleton.1 same
    exact Nat.le_refl _

/-- What the regions cover lies between the first one and the last one. -/
theorem hull (h : Ascending regions) (some : 0 < length) (cover : Cover regions address length) :
    Hull regions address length := by
  obtain ⟨low, mem, inLow⟩ := cover address (Nat.le_refl _) (by omega)
  obtain ⟨high, mem', inHigh⟩ := cover (address + length - 1) (by omega) (by omega)
  have nonempty := List.ne_nil_of_mem mem
  refine ⟨_, List.head?_eq_some_head nonempty, _, List.getLast?_eq_some_getLast nonempty, ?_, ?_⟩
  · exact Nat.le_trans (h.start_le (List.head?_eq_some_head nonempty) mem) inLow.1
  · have below := h.le_stop (List.getLast?_eq_some_getLast nonempty) mem'
    have inside := inHigh.2
    omega

end Ascending

theorem Follow.head_eq {start stop : Nat} (h : Follow start regions stop)
    (head : first ∈ regions.head?) : first.start = start := by
  cases regions with
  | nil => cases head
  | cons top rest =>
      cases head
      exact h.1

theorem Follow.last_eq {start stop : Nat} (h : Follow start regions stop)
    (end' : last ∈ regions.getLast?) : last.stop = stop := by
  obtain ⟨before, rfl⟩ := List.getLast?_eq_some_iff.1 end'
  clear end'
  induction before generalizing start with
  | nil => exact h.2.2
  | cons region rest ih => exact ih h.2.2

theorem Follow.exists_mem {start stop x : Nat} (h : Follow start regions stop) (low : start ≤ x)
    (high : x < stop) : ∃ region ∈ regions, x ∈ region := by
  induction regions generalizing start with
  | nil =>
      cases h
      omega
  | cons region rest ih =>
      by_cases inside : x < region.stop
      · exact ⟨region, List.mem_cons_self, Nat.le_trans (Nat.le_of_eq h.1) low, inside⟩
      · obtain ⟨later, mem, byte⟩ := ih h.2.2 (Nat.not_lt.1 inside)
        exact ⟨later, List.mem_cons_of_mem _ mem, byte⟩

theorem Follow.cover {start stop : Nat} (h : Follow start regions stop)
    (hull : Hull regions address length) : Cover regions address length := by
  obtain ⟨first, head, last, end', low, high⟩ := hull
  rw [h.head_eq head] at low
  rw [h.last_eq end'] at high
  exact fun x above below => h.exists_mem (Nat.le_trans low above) (Nat.lt_of_lt_of_le below high)

/-- There are no gaps between the regions. -/
def Seamless (regions : List Region) : Prop :=
  ∀ address length, 0 < length → Hull regions address length → Cover regions address length

namespace Seamless

variable {second : Region}

/-- The byte behind the first region lies in the second one, or else it would be in a gap. -/
theorem touch (seamless : Seamless (first :: second :: regions))
    (h : Ascending (first :: second :: regions)) : first.stop = second.start := by
  have order := (List.pairwise_cons.1 h.pairwise).1 second List.mem_cons_self
  apply Nat.le_antisymm order
  apply Nat.not_lt.1
  intro gap
  have end' := List.getLast?_eq_some_getLast (List.cons_ne_nil first (second :: regions))
  have above := h.le_stop end' (List.mem_cons_of_mem _ List.mem_cons_self)
  have ordered := h.ordered first List.mem_cons_self
  have ordered' := h.tail.ordered second List.mem_cons_self
  have hull : Hull (first :: second :: regions) first.stop 1 :=
    ⟨first, rfl, _, end', ordered, by omega⟩
  obtain ⟨region, mem, low, high⟩ :=
    seamless _ 1 Nat.one_pos hull first.stop (Nat.le_refl _) (Nat.lt_succ_self _)
  rcases List.mem_cons.1 mem with rfl | later
  · exact Nat.lt_irrefl _ high
  · have behind := h.tail.start_le rfl later
    omega

theorem tail (seamless : Seamless (first :: second :: regions))
    (h : Ascending (first :: second :: regions)) : Seamless (second :: regions) := by
  rintro address length some ⟨_, head, last, end', low, high⟩ x above below
  cases head
  have touch := seamless.touch h
  have ordered := h.ordered first List.mem_cons_self
  obtain ⟨region, mem, byte⟩ := seamless address length some
    ⟨first, rfl, last, end', by omega, high⟩ x above below
  refine ⟨region, (List.mem_cons.1 mem).resolve_left ?_, byte⟩
  rintro rfl
  have inside := byte.2
  omega

end Seamless

/-- Regions that ascend have no gaps just if they follow one another. -/
theorem Ascending.seamless_iff (h : Ascending regions) :
    Seamless regions ↔ ∃ start stop, Follow start regions stop := by
  constructor
  · intro seamless
    induction regions with
    | nil => exact ⟨0, 0, rfl⟩
    | cons first rest ih =>
        have ordered := h.ordered first List.mem_cons_self
        cases rest with
        | nil => exact ⟨first.start, first.stop, rfl, ordered, rfl⟩
        | cons second rest =>
            obtain ⟨start, stop, follow⟩ := ih h.tail (seamless.tail h)
            refine ⟨first.start, stop, rfl, ordered, ?_⟩
            rw [seamless.touch h, follow.1]
            exact follow
  · rintro ⟨start, stop, follow⟩ address length - hull
    exact follow.cover hull

end NextFit.Region
