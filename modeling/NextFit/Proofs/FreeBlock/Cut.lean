import NextFit.Pool.Basic

/-! # Cutting a list of free blocks

A list in address order falls into the blocks below an address and those above it. Taking a block
and giving one back change the list only at such a cut, so `carve` and `release` are computed here
for a list that is cut already. The two nodes at a cut are `lastFrom` and `firstAddress`; the
sentinel stands in for a missing one.
-/

namespace NextFit.FreeBlock

variable {unit units cursor address : Nat} {block b p : FreeBlock} {blocks low high : List FreeBlock}

def Ascending (blocks : List FreeBlock) : Prop :=
  blocks.Pairwise (·.address < ·.address)

instance (blocks : List FreeBlock) : Decidable (Ascending blocks) :=
  inferInstanceAs (Decidable (List.Pairwise _ _))

/-- Where a link to these blocks leads. -/
def firstAddress : List FreeBlock → Nat
  | [] => sentinelAddress
  | b :: _ => b.address

/-- The last node that is passed on the way from `before` through these blocks. -/
def lastFrom (before : Nat) : List FreeBlock → Nat
  | [] => before
  | b :: rest => lastFrom b.address rest

/-- The lowest block above an address, or the sentinel. -/
def above (blocks : List FreeBlock) (address : Nat) : Nat :=
  firstAddress (blocks.filter (address < ·.address))

/-- The highest block below an address, or the sentinel. -/
def below (blocks : List FreeBlock) (address : Nat) : Nat :=
  lastFrom sentinelAddress (blocks.filter (·.address < address))

theorem Separated.ascending (h : Separated unit blocks) : Ascending blocks := by
  apply h.imp
  intro b c gap
  simp only [Precedes, stop] at gap
  omega

@[simp] theorem lastFrom_append (before : Nat) (low high : List FreeBlock) :
    lastFrom before (low ++ high) = lastFrom (lastFrom before low) high := by
  induction low generalizing before with
  | nil => rfl
  | cons b rest ih => exact ih b.address

theorem lastFrom_concat (before : Nat) (low : List FreeBlock) (p : FreeBlock) :
    lastFrom before (low ++ [p]) = p.address := by
  rw [lastFrom_append]
  rfl

theorem lastFrom_mem (before : Nat) (low : List FreeBlock) :
    lastFrom before low = before ∨ ∃ p ∈ low, p.address = lastFrom before low := by
  rcases List.eq_nil_or_concat low with rfl | ⟨init, p, rfl⟩
  · exact .inl rfl
  · exact .inr ⟨p, by simp, by simp [lastFrom]⟩

theorem exists_lastFrom (s : FreeBlock) (low : List FreeBlock) :
    ∃ init p, s :: low = init ++ [p] ∧ p.address = lastFrom s.address low := by
  induction low generalizing s with
  | nil => exact ⟨[], s, rfl, rfl⟩
  | cons b rest ih =>
      obtain ⟨init, p, nodes, last⟩ := ih b
      exact ⟨s :: init, p, congrArg (s :: ·) nodes, last⟩

/-- A list splits into the blocks that pass a test and those that do not if the test never holds
    again once it has failed. -/
theorem filter_append_filter_not (test : FreeBlock → Bool)
    (h : blocks.Pairwise fun b c => test c → test b) :
    blocks.filter test ++ blocks.filter (!test ·) = blocks := by
  induction blocks with
  | nil => rfl
  | cons b rest ih =>
      obtain ⟨head, tail⟩ := List.pairwise_cons.1 h
      by_cases passes : test b
      · simp [passes, ih tail]
      · have fails : ∀ c ∈ rest, ¬ test c := fun c mem passed => passes (head c mem passed)
        have none : rest.filter test = [] := List.filter_eq_nil_iff.2 fails
        have all : rest.filter (!test ·) = rest := by
          rw [List.filter_eq_self]
          simpa using fails
        simp [passes, none, all]

theorem Ascending.cut (h : Ascending blocks) (address : Nat) :
    blocks.filter (·.address < address) ++ blocks.filter (address ≤ ·.address) = blocks := by
  have split := filter_append_filter_not (·.address < address)
    (h.imp fun {b c} order below => by simp only [decide_eq_true_eq] at below ⊢; omega)
  simpa only [← decide_not, Nat.not_lt] using split

theorem Ascending.exists_cut (h : Ascending blocks) (apart : ∀ c ∈ blocks, c.address ≠ address) :
    ∃ low high, blocks = low ++ high ∧ (∀ c ∈ low, c.address < address) ∧
      ∀ c ∈ high, address < c.address := by
  refine ⟨_, _, (h.cut address).symm, ?_, ?_⟩
  · intro c mem
    exact of_decide_eq_true (List.mem_filter.1 mem).2
  · intro c mem
    obtain ⟨mem, above⟩ := List.mem_filter.1 mem
    exact Nat.lt_of_le_of_ne (of_decide_eq_true above) (apart c mem).symm

/-- The sentinel or a block of the list. -/
def IsNode (blocks : List FreeBlock) (address : Nat) : Prop :=
  address = sentinelAddress ∨ ∃ b ∈ blocks, b.address = address

theorem isNode_lastFrom (low high : List FreeBlock) :
    IsNode (low ++ high) (lastFrom sentinelAddress low) := by
  rcases lastFrom_mem sentinelAddress low with sentinel | ⟨p, mem, same⟩
  · exact .inl sentinel
  · exact .inr ⟨p, List.mem_append_left _ mem, same⟩

/-- A node is the last one at the cut behind it. -/
theorem IsNode.cut (node : IsNode blocks address) (ascending : Ascending blocks)
    (nonzero : ∀ b ∈ blocks, b.address ≠ sentinelAddress) :
    ∃ low high, blocks = low ++ high ∧ lastFrom sentinelAddress low = address ∧
      (∀ c ∈ low, c.address ≤ address) ∧ ∀ c ∈ high, address < c.address := by
  rcases node with rfl | ⟨s, mem, rfl⟩
  · exact ⟨[], blocks, rfl, rfl, by simp, fun c mem => Nat.pos_of_ne_zero (nonzero c mem)⟩
  · obtain ⟨low, high, rfl⟩ := List.append_of_mem mem
    obtain ⟨-, tail, across⟩ := List.pairwise_append.1 ascending
    refine ⟨low ++ [s], high, by simp, lastFrom_concat _ _ _, ?_, ?_⟩
    · intro c mem
      cases List.mem_append.1 mem with
      | inl lower => exact Nat.le_of_lt (across c lower s List.mem_cons_self)
      | inr last => exact Nat.le_of_eq (congrArg _ (List.mem_singleton.1 last))
    · exact (List.pairwise_cons.1 tail).1

theorem Ascending.around (h : Ascending (low ++ p :: high)) :
    (∀ c ∈ low, c.address < p.address) ∧ ∀ c ∈ high, p.address < c.address := by
  obtain ⟨-, tail, across⟩ := List.pairwise_append.1 h
  exact ⟨fun c mem => across c mem p List.mem_cons_self, (List.pairwise_cons.1 tail).1⟩

theorem Ascending.le_lastFrom (h : Ascending low) :
    ∀ c ∈ low, c.address ≤ lastFrom sentinelAddress low := by
  rcases List.eq_nil_or_concat low with rfl | ⟨init, p, rfl⟩
  · simp
  · rw [List.concat_eq_append] at *
    intro c mem
    rw [lastFrom_concat]
    rcases List.mem_append.1 mem with lower | last
    · exact Nat.le_of_lt ((List.pairwise_append.1 h).2.2 c lower p List.mem_cons_self)
    · exact Nat.le_of_eq (congrArg _ (List.mem_singleton.1 last))

theorem filter_lt_of_cut (lows : ∀ c ∈ low, c.address < address)
    (highs : ∀ c ∈ high, address ≤ c.address) :
    (low ++ high).filter (·.address < address) = low := by
  rw [List.filter_append, List.filter_eq_self.2 (by simpa using lows),
    List.filter_eq_nil_iff.2 (by simpa using highs), List.append_nil]

theorem filter_gt_of_cut (lows : ∀ c ∈ low, c.address ≤ address)
    (highs : ∀ c ∈ high, address < c.address) :
    (low ++ high).filter (address < ·.address) = high := by
  rw [List.filter_append, List.filter_eq_nil_iff.2 (by simpa using lows),
    List.filter_eq_self.2 (by simpa using highs), List.nil_append]

theorem below_of_cut (lows : ∀ c ∈ low, c.address < address)
    (highs : ∀ c ∈ high, address ≤ c.address) :
    below (low ++ high) address = lastFrom sentinelAddress low := by
  rw [below, filter_lt_of_cut lows highs]

theorem above_of_cut (lows : ∀ c ∈ low, c.address ≤ address)
    (highs : ∀ c ∈ high, address < c.address) :
    above (low ++ high) address = firstAddress high := by
  rw [above, filter_gt_of_cut lows highs]

theorem below_at (ascending : Ascending (low ++ p :: high)) :
    below (low ++ p :: high) p.address = lastFrom sentinelAddress low := by
  obtain ⟨lows, highs⟩ := ascending.around
  apply below_of_cut lows
  intro c mem
  rcases List.mem_cons.1 mem with rfl | later
  · exact Nat.le_refl _
  · exact Nat.le_of_lt (highs c later)

theorem above_at (ascending : Ascending (low ++ p :: high)) :
    above (low ++ p :: high) p.address = firstAddress high := by
  obtain ⟨lows, highs⟩ := ascending.around
  rw [List.append_cons]
  refine above_of_cut (?_) highs
  intro c mem
  cases List.mem_append.1 mem with
  | inl lower => exact Nat.le_of_lt (lows c lower)
  | inr last => exact Nat.le_of_eq (congrArg _ (List.mem_singleton.1 last))

/-- A lap passes all blocks. -/
theorem mem_lap : b ∈ lap cursor blocks ↔ b ∈ blocks := by
  simp only [lap, List.mem_append, List.mem_filter, decide_eq_true_eq, ← and_or_left,
    Nat.lt_or_ge cursor b.address, and_true]

theorem nextFit?_eq_none_iff : nextFit? units cursor blocks = none ↔ ∀ b ∈ blocks, b.size < units := by
  simp [nextFit?, mem_lap]

theorem nextFit?_spec (h : nextFit? units cursor blocks = some b) : b ∈ blocks ∧ units ≤ b.size :=
  ⟨mem_lap.1 (List.mem_of_find?_eq_some h), by simpa using List.find?_some h⟩

theorem carve_of_apart (units : Nat) (apart : ∀ c ∈ blocks, c.address ≠ address) :
    carve units address blocks = blocks := by
  induction blocks with
  | nil => rfl
  | cons c rest ih =>
      have tail := ih fun d mem => apart d (List.mem_cons_of_mem _ mem)
      rw [carve] at tail ⊢
      rw [List.filterMap_cons, if_pos (apart c List.mem_cons_self), tail]

theorem carve_of_cut (units : Nat) (ascending : Ascending (low ++ p :: high)) :
    carve units p.address (low ++ p :: high) =
      low ++ (if p.size ≤ units then [] else [{ p with size := p.size - units }]) ++ high := by
  obtain ⟨lows, highs⟩ := ascending.around
  have inLow := carve_of_apart units fun c mem => Nat.ne_of_lt (lows c mem)
  have inHigh := carve_of_apart units fun c mem => Nat.ne_of_gt (highs c mem)
  rw [carve] at inLow inHigh ⊢
  rw [List.filterMap_append, List.filterMap_cons, inLow, inHigh,
    if_neg (not_not_intro rfl : ¬ p.address ≠ p.address)]
  by_cases whole : p.size ≤ units <;> simp [whole]

/-- Below all blocks, a released block goes to the front. -/
theorem release_of_lt (highs : ∀ c ∈ high, block.address < c.address) :
    release unit block high = pushFront unit block high := by
  cases high with
  | nil => rfl
  | cons c rest => exact if_pos (highs c List.mem_cons_self)

theorem pushFront_of_apart (apart : block.stop unit ≠ firstAddress high ∨ high = []) :
    pushFront unit block high = block :: high := by
  cases high with
  | nil => rfl
  | cons c rest => exact if_neg (apart.resolve_right (List.cons_ne_nil _ _))

/-- Behind other blocks, a released block can only change the last one of them. -/
theorem release_of_cut {init : List FreeBlock} (separated : Separated unit (init ++ p :: high))
    (lows : ∀ c ∈ init ++ [p], c.address < block.address)
    (highs : ∀ c ∈ high, block.address < c.address) :
    release unit block (init ++ p :: high) =
      init ++ pushFront unit p (pushFront unit block high) := by
  induction init with
  | nil =>
      have above : ¬ block.address < p.address := Nat.lt_asymm (lows p List.mem_cons_self)
      rw [List.nil_append, release, if_neg above, release_of_lt highs, List.nil_append]
  | cons c rest ih =>
      obtain ⟨gaps, tail⟩ := List.pairwise_cons.1 separated
      have above : ¬ block.address < c.address := Nat.lt_asymm (lows c List.mem_cons_self)
      rw [List.cons_append, release, if_neg above,
        ih tail fun d mem => lows d (List.mem_cons_of_mem _ mem)]
      apply pushFront_of_apart
      left
      have first : ∀ l : List FreeBlock, ∃ q ∈ rest ++ p :: high,
          q.address = firstAddress (rest ++ pushFront unit p l) := by
        intro l
        cases rest with
        | nil =>
            refine ⟨p, by simp, ?_⟩
            cases l with
            | nil => rfl
            | cons d l =>
                simp only [List.nil_append, pushFront]
                split <;> rfl
        | cons d rest => exact ⟨d, by simp, rfl⟩
      obtain ⟨q, mem, same⟩ := first (pushFront unit block high)
      rw [← same]
      exact Nat.ne_of_lt (gaps q mem)

end NextFit.FreeBlock
