import NextFit.Proofs.Arena.Cover
import NextFit.Proofs.Arena.ProgramBreak
import NextFit.Proofs.Heap.Guard

/-! # What a window can tell

An arena on the program break remembers of its memory only where the first region starts and where the
last one stops, and whatever lies in between counts as its own: all that it got, and besides the gaps
that its own padding and other code have left. A heap on such an arena takes addresses back from those
gaps too.
-/

namespace NextFit

namespace Window

variable {window : Window} {regions : List Region} {address length : Nat}

theorem contains_eq_true_iff (below : window.stop < Size.bound) :
    window.contains address length = true ↔
      window.start ≤ address ∧ address + length ≤ window.stop := by
  rw [contains, Bool.and_eq_true, decide_eq_true_eq, Size.any_add?_le_iff]
  exact and_congr_right' (and_iff_right_of_imp fun high => Nat.lt_of_le_of_lt high below)

/-- The window of an arena that got these regions in this order. -/
def spanning (regions : List Region) : Window where
  start := (regions.head?.map Region.start).getD 0
  stop := (regions.getLast?.map Region.stop).getD 0

theorem widen_spanning (nonzero : ∀ region ∈ regions, region.start ≠ 0) (base stop : Nat) :
    (spanning regions).widen base stop =
      spanning (regions ++ [{ start := base, stop }]) := by
  cases regions with
  | nil => rfl
  | cons first rest =>
      have known : (spanning (first :: rest)).start ≠ 0 := nonzero first List.mem_cons_self
      rw [widen, if_neg known, spanning, spanning, List.getLast?_concat]
      rfl

theorem spanning_contains_iff (below : ∀ region ∈ regions, region.stop < Size.bound)
    (some : 0 < length) :
    (spanning regions).contains address length = true ↔ Region.Hull regions address length := by
  rcases List.eq_nil_or_concat' regions with rfl | ⟨before, last, rfl⟩
  · rw [contains_eq_true_iff (show 0 < Size.bound by decide)]
    simp [spanning, Region.Hull, Nat.ne_of_gt some]
  · have end' : (before ++ [last]).getLast? = .some last := List.getLast?_concat
    have bound : last.stop < Size.bound := below last (by simp)
    have stop : (spanning (before ++ [last])).stop = last.stop := by simp [spanning]
    obtain ⟨first, head⟩ := Option.isSome_iff_exists.1
      (List.isSome_head?.2 (List.concat_ne_nil last before))
    rw [contains_eq_true_iff (stop ▸ bound), stop]
    simp [spanning, Region.Hull, head, end']

end Window

namespace BreakArena

theorem avoids (failure : Failure) : Arena.Avoids BreakArena failure where
  load := fun _ _ => .ok _
  store := fun _ _ => .update _

namespace History

variable {history : History} {move : Move} {moves : List Move} {origin address length : Nat}

/-- The window spans what the arena got, and that is sound. -/
structure Tracked (origin : Nat) (history : History) : Prop where
  origin_pos : 0 < origin
  sound : history.Sound origin
  ordered : ∀ region ∈ history.own, region.start ≤ region.stop
  below : ∀ region ∈ history.own, region.stop < Size.bound
  window : history.arena.window = .spanning history.own

namespace Tracked

theorem new {source : ProgramBreak} (positive : 0 < source.position) :
    Tracked source.position { arena := { source } } where
  origin_pos := positive
  sound := Orderly.new _
  ordered := by simp
  below := by simp
  window := rfl

theorem ascending (h : history.Tracked origin) : Region.Ascending history.own :=
  ⟨h.ordered, h.sound.ascending⟩

theorem extend (h : history.Tracked origin) (bytes : Nat)
    (grants : (position increment : Nat) → Bool) :
    (history.step (.extend bytes grants)).Tracked origin := by
  rcases extend_cases { history.arena with source.grants := grants } bytes with
    ⟨failure, arena, ended, window, above⟩ | ⟨base, arena, ended, fresh, below, moved, window⟩
  · have after : history.step (.extend bytes grants) = { history with arena } := by
      rw [step_extend, record, call, ended.1, ended.2]
    rw [after]
    exact { h with sound := h.sound.raise above, window := window.trans h.window }
  · have after : history.step (.extend bytes grants) =
        { history with
          arena, own := history.own ++ [{ start := base, stop := base + bytes }] } := by
      rw [step_extend, record, call, ended.1, ended.2]
    have nonzero : ∀ region ∈ history.own, region.start ≠ 0 := fun region mem =>
      Nat.ne_of_gt (Nat.lt_of_lt_of_le h.origin_pos (h.sound.within region mem).1)
    have spans : arena.window =
        .spanning (history.own ++ [{ start := base, stop := base + bytes }]) := by
      rw [window, h.window, Window.widen_spanning nonzero]
    rw [after]
    refine ⟨h.origin_pos, ?_, ?_, ?_, spans⟩
    · rw [Sound, brk, moved]
      exact Orderly.extend h.sound fresh bytes
    · exact List.forall_mem_append.2 ⟨h.ordered, by simp⟩
    · exact List.forall_mem_append.2 ⟨h.below, by simpa using below⟩

theorem step (h : history.Tracked origin) (move : Move) : (history.step move).Tracked origin := by
  cases move with
  | extend bytes grants => exact h.extend bytes grants
  | foreign bytes => exact { h with sound := Orderly.take h.sound bytes }

theorem run (h : history.Tracked origin) (moves : List Move) :
    (history.run moves).Tracked origin := by
  induction moves generalizing history with
  | nil => exact h
  | cons move rest ih => exact ih (h.step move)

theorem contains_iff (h : history.Tracked origin) (some : 0 < length) :
    history.arena.window.contains address length = true ↔
      Region.Hull history.own address length := by
  rw [h.window]
  exact Window.spanning_contains_iff h.below some

/-- What other code got between two extensions counts as the arena's own, although it is not. -/
theorem contains_foreign (h : history.Tracked origin) {low high other : Region}
    (lower : low ∈ history.own) (higher : high ∈ history.own) (taken : other ∈ history.foreign)
    (above : low.stop ≤ other.start) (below : other.stop ≤ high.start) (some : 0 < length)
    (inside : other.contains address length = true) :
    history.arena.window.contains address length = true ∧
      ¬ Region.Cover history.own address length := by
  obtain ⟨start, stop⟩ := Region.contains_eq_true_iff.1 inside
  constructor
  · have nonempty := List.ne_nil_of_mem lower
    have head := List.head?_eq_some_head nonempty
    have end' := List.getLast?_eq_some_getLast nonempty
    have first := h.ascending.start_le head lower
    have last := h.ascending.le_stop end' higher
    have ordered := h.ordered low lower
    have ordered' := h.ordered high higher
    exact (h.contains_iff some).2 ⟨_, head, _, end', by omega, by omega⟩
  · intro cover
    obtain ⟨region, mem, byte⟩ := cover address (Nat.le_refl _) (by omega)
    have apart := h.sound.apart region mem other taken
    have bounds := Region.mem_def.1 byte
    omega

theorem contains_eq_cover_iff (h : history.Tracked origin) :
    (∀ address length, 0 < length → (history.arena.window.contains address length = true ↔
      Region.Cover history.own address length)) ↔
    ∃ start stop, Region.Follow start history.own stop := by
  rw [← h.ascending.seamless_iff]
  constructor
  · intro exact' address length some hull
    exact (exact' address length some).1 ((h.contains_iff some).2 hull)
  · intro seamless address length some
    rw [h.contains_iff some]
    exact ⟨seamless address length some, h.ascending.hull some⟩

theorem deallocate_foreign_iff (h : history.Tracked origin) {heap : Heap BreakArena}
    (same : heap.arena.window = history.arena.window) :
    (Heap.deallocate address heap).result = .error (.faulted (.foreignAddress address)) ↔
      unit ≤ address ∧ ¬ Region.Hull history.own (address - unit) unit := by
  have guard : Arena.contains heap.arena (address - unit) unit = false ↔
      ¬ Region.Hull history.own (address - unit) unit := by
    rw [← h.contains_iff (show 0 < unit by decide), Bool.not_eq_true, ← same]
    rfl
  rw [← guard]
  exact Heap.deallocate_foreign_iff (avoids _)

end Tracked

/-- What an arena says to be its own behind any history: all that lies between the first byte and the
    last one that it got. This holds what it got, and is no more than that if and only if there are no
    gaps; what other code got in between always counts. A heap turns an address down just if its
    header lies outside. -/
theorem contains_iff_hull {source : ProgramBreak} (positive : 0 < source.position)
    (moves : List Move) :
    let after := ({ arena := { source } } : History).run moves
    (∀ address length, 0 < length → (after.arena.window.contains address length = true ↔
      Region.Hull after.own address length)) ∧
    (∀ address length, 0 < length → Region.Cover after.own address length →
      after.arena.window.contains address length = true) ∧
    ((∀ address length, 0 < length → (after.arena.window.contains address length = true ↔
        Region.Cover after.own address length)) ↔
      ∃ start stop, Region.Follow start after.own stop) ∧
    (∀ low ∈ after.own, ∀ high ∈ after.own, ∀ other ∈ after.foreign, low.stop ≤ other.start →
      other.stop ≤ high.start → ∀ address length, 0 < length →
        other.contains address length = true →
          after.arena.window.contains address length = true ∧
            ¬ Region.Cover after.own address length) ∧
    ∀ heap : Heap BreakArena, heap.arena.window = after.arena.window → ∀ address,
      (Heap.deallocate address heap).result = .error (.faulted (.foreignAddress address)) ↔
        16 ≤ address ∧ ¬ Region.Hull after.own (address - 16) 16 := by
  intro after
  have tracked : after.Tracked source.position := (Tracked.new positive).run moves
  refine ⟨?_, ?_, tracked.contains_eq_cover_iff, ?_, ?_⟩
  · exact fun address length some => tracked.contains_iff some
  · exact fun address length some cover =>
      (tracked.contains_iff some).2 (tracked.ascending.hull some cover)
  · exact fun low lower high higher other taken above below address length some inside =>
      tracked.contains_foreign lower higher taken above below some inside
  · exact fun heap same address => tracked.deallocate_foreign_iff same

/-- Both extensions start behind padding. There are eight bytes between them, of which other code took
    five, and they count as the arena's own; the padding in front of the first one does not. -/
theorem contains_iff_hull_at_odd_breaks :
    let moves : List Move := [.extend 24 fun _ _ => true, .foreign 5, .extend 40 fun _ _ => true]
    let after := ({ arena := { source := { position := 1003 } } } : History).run moves
    0 < 1003 ∧ after.own = [⟨1008, 1032⟩, ⟨1040, 1080⟩] ∧
      after.arena.window.contains 1032 8 = true ∧ after.arena.window.contains 1003 8 = false := by
  intro moves after
  have own : after.own = [⟨1008, 1032⟩, ⟨1040, 1080⟩] := by decide +kernel
  have positive : 0 < ({ position := 1003 } : ProgramBreak).position := by decide
  have known : ∀ address, after.arena.window.contains address 8 = true ↔
      Region.Hull after.own address 8 := fun address =>
    (contains_iff_hull positive moves).1 address 8 (by decide)
  rw [own] at known
  refine ⟨positive, own, (known 1032).2 ⟨_, rfl, _, rfl, by decide, by decide⟩, ?_⟩
  rw [← Bool.not_eq_true, known]
  rintro ⟨_, head, _, -, low, -⟩
  cases head
  exact absurd low (by decide)

/-- Other code takes 16 bytes between two extensions. They count as the arena's own, and a heap takes
    back a block whose header lies there. -/
theorem contains_gap :
    let source : ProgramBreak := { position := 0x10000000 }
    let moves : List Move := [.extend 16 source.grants, .foreign 16, .extend 16 source.grants]
    let after := ({ arena := { source } } : History).run moves
    let use : Op (Heap BreakArena) Unit := do
      let _ ← Heap.allocate 0
      let _ ← Heap.inPool (Pool.inArena (ExposedArena.growForOthers 16))
      let _ ← Heap.allocate 0
      Heap.deallocate 0x10000020
    let heap := (use (Heap.new { source } { minExtensionUnits := 0 })).state
    after.own = [⟨0x10000000, 0x10000010⟩, ⟨0x10000020, 0x10000030⟩] ∧
      after.foreign = [⟨0x10000010, 0x10000020⟩] ∧
      after.arena.window.contains 0x10000010 16 = true ∧
      ¬ Region.Cover after.own 0x10000010 16 ∧
      heap.arena.window = after.arena.window ∧
      (use (Heap.new { source } { minExtensionUnits := 0 })).result = .ok () ∧
      heap.freeBlocks = .ok [{ address := 0x10000010, size := 0 }] := by
  intro source moves after use heap
  refine ⟨by decide +kernel, by decide +kernel, by decide +kernel, ?_, ?_, ?_, ?_⟩
  · intro cover
    have own : after.own = [⟨0x10000000, 0x10000010⟩, ⟨0x10000020, 0x10000030⟩] := by
      decide +kernel
    obtain ⟨region, mem, byte⟩ := cover 0x10000010 (by decide) (by decide)
    rw [own] at mem
    have bounds := Region.mem_def.1 byte
    simp only [List.mem_cons, List.not_mem_nil, or_false] at mem
    rcases mem with rfl | rfl
    · exact absurd bounds.2 (by decide)
    · exact absurd bounds.1 (by decide)
  · decide +kernel
  · decide +kernel
  · decide +kernel

end History

end BreakArena

end NextFit
