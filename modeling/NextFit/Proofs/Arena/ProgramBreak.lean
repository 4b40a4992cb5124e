import Mathlib.Algebra.Group.Nat.Defs
import NextFit.Arena.ProgramBreak
import NextFit.Proofs.FreeBlock.Cells
import NextFit.Proofs.Outcome

/-! # Extensions by a program break

The break stands where the last code that moved it left it, which need not be a multiple of the unit.
An extension pads up to the next multiple and takes its bytes from there. The system may let the break
rise or not, and other code may move it up between two extensions.
-/

namespace NextFit.BreakArena

variable {arena : BreakArena} {bytes : Nat}

/-- How far the next multiple of the unit is. -/
def padding (position : Nat) : Nat :=
  (unit - position % unit) % unit

theorem aligned_eq (position : Nat) :
    (position + unit - 1) / unit * unit = position + padding position := by
  simp only [padding, unit, wordBytes]
  omega

theorem padding_lt (position : Nat) : padding position < unit :=
  Nat.mod_lt _ (by decide)

theorem add_padding_mod (position : Nat) : (position + padding position) % unit = 0 := by
  rw [← aligned_eq]
  exact Nat.mul_mod_left _ _

/-- There is room for one unit above the break. -/
def Roomy (arena : BreakArena) : Prop :=
  arena.source.position + unit < Size.bound

instance : DecidablePred Roomy :=
  fun _ => inferInstanceAs (Decidable (_ < _))

/-- Whether the break can rise for so many bytes: the increment is one that can be asked for, and the
    system lets it. -/
def Rises (arena : BreakArena) (bytes : Nat) : Prop :=
  bytes + padding arena.source.position < incrementBound ∧
    arena.source.grants arena.source.position (bytes + padding arena.source.position) = true

/-- The arena once its break has risen. -/
def risen (arena : BreakArena) (bytes : Nat) : BreakArena :=
  { arena with source.position :=
      arena.source.position + (bytes + padding arena.source.position) }

theorem position_risen (arena : BreakArena) (bytes : Nat) : (arena.risen bytes).source.position =
    arena.source.position + (bytes + padding arena.source.position) :=
  rfl

/-- The increment that an extension asks for. -/
theorem increment_eq (bytes position : Nat) :
    (Size.add? bytes (padding position)).filter (· < incrementBound) =
      if bytes + padding position < incrementBound then some (bytes + padding position) else none := by
  have sizes : incrementBound < Size.bound := by decide
  split
  case isTrue fits =>
    have sum : Size.add? bytes (padding position) = some (bytes + padding position) :=
      Size.add?_eq_some_iff.2 ⟨Nat.lt_trans fits sizes, rfl⟩
    simpa [sum] using fits
  case isFalse large =>
    rw [Option.filter_eq_none_iff]
    intro increment sum
    obtain ⟨-, rfl⟩ := Size.add?_eq_some_iff.1 sum
    simpa using large

theorem aligned (roomy : arena.Roomy) : Size.roundUp arena.source.position unit =
    .ok (arena.source.position + padding arena.source.position) := by
  rw [Size.roundUp_of_lt (by decide) roomy, aligned_eq]

theorem padding_eq_sub (position : Nat) :
    Size.sub (position + padding position) position = .ok (padding position) := by
  rw [Size.sub_of_le (Nat.le_add_right _ _), Nat.add_sub_cancel_left]

theorem yields_extend_refused (roomy : arena.Roomy) (stays : ¬ arena.Rises bytes) :
    (extend bytes).Yields arena (.error (.refused (.outOfMemory bytes))) arena := by
  refine .bind .state (.bind (.lift (aligned roomy)) (.bind (.lift (padding_eq_sub _)) ?_))
  rw [increment_eq]
  by_cases fits : bytes + padding arena.source.position < incrementBound
  · have declined : arena.source.raise? (bytes + padding arena.source.position) = none :=
      if_neg fun granted => stays ⟨fits, granted⟩
    rw [if_pos fits]
    refine .bind_error (.bind .state ?_)
    simp only [declined]
    exact .refuse _
  · rw [if_neg fits]
    exact .refuse _

theorem yields_raise (rises : arena.Rises bytes) :
    (raise (bytes + padding arena.source.position) bytes).Yields arena (.ok arena.source.position)
      (arena.risen bytes) := by
  have granted : arena.source.raise? (bytes + padding arena.source.position) =
      some (arena.source.position, (arena.risen bytes).source) := if_pos rises.2
  apply Op.Yields.bind .state
  simp only [granted]
  exact .bind (.update _) (.pure _)

theorem yields_extend_risen (roomy : arena.Roomy) (rises : arena.Rises bytes)
    (below : (arena.risen bytes).source.position < Size.bound) :
    (extend bytes).Yields arena (.ok (arena.source.position + padding arena.source.position))
      { arena.risen bytes with
        window := arena.window.widen (arena.source.position + padding arena.source.position)
          (arena.risen bytes).source.position } := by
  have stop : Size.add (arena.source.position + padding arena.source.position) bytes =
      .ok (arena.risen bytes).source.position := by
    have sum : arena.source.position + padding arena.source.position + bytes =
        (arena.risen bytes).source.position := by
      simp only [risen]
      omega
    rw [← sum]
    exact Size.add_of_lt (sum ▸ below)
  have granted : Size.add arena.source.position (bytes + padding arena.source.position) =
      .ok (arena.risen bytes).source.position := Size.add_of_lt below
  refine .bind .state (.bind (.lift (aligned roomy)) (.bind (.lift (padding_eq_sub _)) ?_))
  rw [increment_eq, if_pos rises.1]
  refine .bind (yields_raise rises) (.bind (.lift (aligned roomy)) (.bind (.lift stop) ?_))
  refine .bind (.lift granted) (.bind (.require (Nat.le_refl _)) ?_)
  exact .bind (.update _) (.bind (.report _) (.pure _))

theorem yields_extend_overrun (roomy : arena.Roomy) (rises : arena.Rises bytes)
    (beyond : Size.bound ≤ (arena.risen bytes).source.position) :
    (extend bytes).Yields arena (.error (.faulted (.overflow .addition))) (arena.risen bytes) := by
  have stop : Size.add (arena.source.position + padding arena.source.position) bytes =
      .error (.overflow .addition) := by
    refine if_neg ?_
    simp only [risen] at beyond
    omega
  refine .bind .state (.bind (.lift (aligned roomy)) (.bind (.lift (padding_eq_sub _)) ?_))
  rw [increment_eq, if_pos rises.1]
  refine .bind (yields_raise rises) (.bind (.lift (aligned roomy)) ?_)
  rw [stop]
  exact .bind_error ⟨rfl, rfl⟩

/-- The break has risen also if the new end is no address any more. -/
theorem position_extend (roomy : arena.Roomy) (rises : arena.Rises bytes) :
    (extend bytes arena).state.source.position = (arena.risen bytes).source.position := by
  by_cases below : (arena.risen bytes).source.position < Size.bound
  · rw [(yields_extend_risen roomy rises below).2]
  · rw [(yields_extend_overrun roomy rises (Nat.not_lt.1 below)).2]

theorem yields_extend_crowded (crowded : ¬ arena.Roomy) :
    (extend bytes).Yields arena (.error (.faulted (.overflow .addition))) arena := by
  refine .bind .state ?_
  rw [Size.roundUp_of_le (Nat.not_lt.1 crowded)]
  exact .bind_error ⟨rfl, rfl⟩

/-- How an extension ends, wherever the break stands. -/
theorem extend_cases (arena : BreakArena) (bytes : Nat) :
    (∃ failure arena', (extend bytes).Yields arena (.error failure) arena' ∧
      arena'.window = arena.window ∧ arena.source.position ≤ arena'.source.position) ∨
    ∃ base arena', (extend bytes).Yields arena (.ok base) arena' ∧
      arena.source.position ≤ base ∧ base + bytes < Size.bound ∧
      arena'.source.position = base + bytes ∧
      arena'.window = arena.window.widen base (base + bytes) := by
  by_cases roomy : arena.Roomy
  case neg => exact .inl ⟨_, _, yields_extend_crowded roomy, rfl, Nat.le_refl _⟩
  by_cases rises : arena.Rises bytes
  case neg => exact .inl ⟨_, _, yields_extend_refused roomy rises, rfl, Nat.le_refl _⟩
  by_cases below : (arena.risen bytes).source.position < Size.bound
  case neg =>
    refine .inl ⟨_, _, yields_extend_overrun roomy rises (Nat.not_lt.1 below), rfl, ?_⟩
    exact Nat.le_add_right _ _
  case pos =>
    have stop : (arena.risen bytes).source.position =
        arena.source.position + padding arena.source.position + bytes := by
      rw [position_risen]
      omega
    have ended := yields_extend_risen roomy rises below
    rw [stop] at ended below
    exact .inr ⟨_, _, ended, Nat.le_add_right _ _, below, stop, rfl⟩

/-! ## Histories -/

/-- What moves a break. -/
inductive Move where
  /-- The arena is asked for bytes, at a time when the system lets rise what `grants` tells. -/
  | extend (bytes : Nat) (grants : (position increment : Nat) → Bool)
  /-- Other code takes bytes. -/
  | foreign (bytes : Nat)

/-- An arena, with the memory that it and other code got so far. -/
structure History where
  arena : BreakArena
  own : List Region := []
  foreign : List Region := []

namespace History

variable {history : History} {move : Move} {moves more : List Move} {bytes : Nat}
  {grants : (position increment : Nat) → Bool}

def brk (history : History) : Nat :=
  history.arena.source.position

def call (history : History) (bytes : Nat) (grants : (position increment : Nat) → Bool) :
    Outcome BreakArena Nat :=
  BreakArena.extend bytes { history.arena with source.grants := grants }

def record (history : History) (bytes : Nat) (outcome : Outcome BreakArena Nat) : History :=
  { history with
    arena := outcome.state
    own :=
      match outcome.result with
      | .ok base => history.own ++ [{ start := base, stop := base + bytes }]
      | .error _ => history.own }

def step (history : History) : Move → History
  | .extend bytes grants => history.record bytes (history.call bytes grants)
  | .foreign bytes =>
      { history with
        arena := { history.arena with source.position := history.brk + bytes }
        foreign := history.foreign ++ [{ start := history.brk, stop := history.brk + bytes }] }

def run (history : History) (moves : List Move) : History :=
  moves.foldl step history

/-- There is room above the break before and behind every move. -/
def StaysRoomy (history : History) : List Move → Prop
  | [] => history.arena.Roomy
  | move :: rest => history.arena.Roomy ∧ (history.step move).StaysRoomy rest

instance decidableStaysRoomy (history : History) :
    (moves : List Move) → Decidable (history.StaysRoomy moves)
  | [] => inferInstanceAs (Decidable history.arena.Roomy)
  | move :: rest =>
      have := decidableStaysRoomy (history.step move) rest
      inferInstanceAs (Decidable (history.arena.Roomy ∧ (history.step move).StaysRoomy rest))

theorem StaysRoomy.roomy (h : history.StaysRoomy moves) : history.arena.Roomy := by
  cases moves with
  | nil => exact h
  | cons move rest => exact h.1

theorem staysRoomy_singleton : history.StaysRoomy [move] ↔
    history.arena.Roomy ∧ (history.step move).arena.Roomy :=
  Iff.rfl

theorem staysRoomy_append : history.StaysRoomy (moves ++ more) ↔
    history.StaysRoomy moves ∧ (history.run moves).StaysRoomy more := by
  induction moves generalizing history with
  | nil => exact ⟨fun h => ⟨h.roomy, h⟩, fun h => h.2⟩
  | cons move rest ih => simp [StaysRoomy, run, ih, and_assoc]

/-- How an extension goes. -/
inductive Extends (history : History) (bytes : Nat) (grants : (position increment : Nat) → Bool)
    (outcome : Outcome BreakArena Nat) : Prop where
  /-- The memory starts at the next multiple of the unit and goes up to the break. -/
  | risen :
      bytes + padding history.brk < incrementBound →
      grants history.brk (bytes + padding history.brk) = true →
      outcome.result = .ok (history.brk + padding history.brk) →
      outcome.state.source.position = history.brk + padding history.brk + bytes →
      Extends history bytes grants outcome
  | refused :
      (incrementBound ≤ bytes + padding history.brk ∨
        grants history.brk (bytes + padding history.brk) = false) →
      outcome.result = .error (.refused (.outOfMemory bytes)) →
      outcome.state.source.position = history.brk →
      outcome.state.window = history.arena.window →
      Extends history bytes grants outcome

theorem call_extends (roomy : history.arena.Roomy)
    (roomy' : (history.call bytes grants).state.Roomy) :
    history.Extends bytes grants (history.call bytes grants) := by
  rw [call] at roomy' ⊢
  generalize asked : { history.arena with source.grants := grants } = arena at roomy' ⊢
  have place : arena.source.position = history.brk := by rw [← asked, brk]
  have policy : arena.source.grants = grants := by rw [← asked]
  have window : arena.window = history.arena.window := by rw [← asked]
  have ready : arena.Roomy := by
    rw [Roomy, place]
    exact roomy
  by_cases rises : arena.Rises bytes
  · have moved := position_extend ready rises
    have below : (arena.risen bytes).source.position < Size.bound := by
      rw [Roomy, moved] at roomy'
      omega
    have answered := (yields_extend_risen ready rises below).1
    rw [Rises, place, policy] at rises
    rw [place] at answered
    refine .risen rises.1 rises.2 answered ?_
    rw [moved, position_risen, place]
    omega
  · obtain ⟨answered, state⟩ := yields_extend_refused ready rises
    rw [Rises, place, policy, Decidable.not_and_iff_not_or_not, Nat.not_lt, Bool.not_eq_true] at rises
    refine .refused rises answered ?_ ?_
    · rw [state, place]
    · rw [state, window]

end History

/-- The arena got its memory in ascending order, and nobody else has any of it. -/
structure Orderly (origin brk : Nat) (own foreign : List Region) : Prop where
  origin_le : origin ≤ brk
  within : ∀ region ∈ own, origin ≤ region.start ∧ region.stop ≤ brk
  below : ∀ region ∈ foreign, region.stop ≤ brk
  ascending : own.Pairwise fun region later => region.stop ≤ later.start
  apart : ∀ region ∈ own, ∀ other ∈ foreign,
    region.stop ≤ other.start ∨ other.stop ≤ region.start

namespace Orderly

variable {origin brk base : Nat} {own foreign : List Region}

theorem new (origin : Nat) : Orderly origin origin [] [] where
  origin_le := Nat.le_refl _
  within := by simp
  below := by simp
  ascending := .nil
  apart := by simp

/-- The break rises, and nobody gets anything. -/
theorem raise {brk' : Nat} (h : Orderly origin brk own foreign) (above : brk ≤ brk') :
    Orderly origin brk' own foreign where
  origin_le := Nat.le_trans h.origin_le above
  within := fun region mem =>
    ⟨(h.within region mem).1, Nat.le_trans (h.within region mem).2 above⟩
  below := fun other taken => Nat.le_trans (h.below other taken) above
  ascending := h.ascending
  apart := h.apart

/-- The arena gets memory that starts at the break or above it. -/
theorem extend (h : Orderly origin brk own foreign) (fresh : brk ≤ base) (bytes : Nat) :
    Orderly origin (base + bytes) (own ++ [{ start := base, stop := base + bytes }]) foreign where
  origin_le := Nat.le_trans h.origin_le (Nat.le_trans fresh (Nat.le_add_right _ _))
  within := by
    intro region mem
    rcases List.mem_append.1 mem with old | new
    · have bounds := h.within region old
      omega
    · cases List.mem_singleton.1 new
      exact ⟨Nat.le_trans h.origin_le fresh, Nat.le_refl _⟩
  below := by
    intro other taken
    have bound := h.below other taken
    omega
  ascending := by
    refine List.pairwise_append.2 ⟨h.ascending, List.pairwise_singleton _ _, ?_⟩
    intro region old later new
    cases List.mem_singleton.1 new
    exact Nat.le_trans (h.within region old).2 fresh
  apart := by
    intro region mem other taken
    rcases List.mem_append.1 mem with old | new
    · exact h.apart region old other taken
    · cases List.mem_singleton.1 new
      exact .inr (Nat.le_trans (h.below other taken) fresh)

/-- Other code gets memory from the break on. -/
theorem take (h : Orderly origin brk own foreign) (bytes : Nat) :
    Orderly origin (brk + bytes) own (foreign ++ [{ start := brk, stop := brk + bytes }]) where
  origin_le := Nat.le_trans h.origin_le (Nat.le_add_right _ _)
  within := by
    intro region mem
    have bounds := h.within region mem
    omega
  below := by
    intro other taken
    rcases List.mem_append.1 taken with old | new
    · exact Nat.le_trans (h.below other old) (Nat.le_add_right _ _)
    · cases List.mem_singleton.1 new
      exact Nat.le_refl _
  ascending := h.ascending
  apart := by
    intro region mem other taken
    rcases List.mem_append.1 taken with old | new
    · exact h.apart region mem other old
    · cases List.mem_singleton.1 new
      exact .inl (h.within region mem).2

theorem disjoint (h : Orderly origin brk own foreign) : own.Pairwise Region.Disjoint :=
  h.ascending.imp fun below => Region.disjoint_of_le (.inl below)

end Orderly

namespace History

variable {history : History} {moves : List Move} {move : Move} {origin bytes : Nat}
  {grants : (position increment : Nat) → Bool} {outcome : Outcome BreakArena Nat}

def Sound (origin : Nat) (history : History) : Prop :=
  Orderly origin history.brk history.own history.foreign

theorem Sound.record (h : history.Sound origin)
    (extends' : history.Extends bytes grants outcome) :
    (history.record bytes outcome).Sound origin := by
  cases extends' with
  | risen _ _ answered moved =>
      rw [Sound, brk, History.record, answered, moved]
      exact Orderly.extend h (Nat.le_add_right _ _) bytes
  | refused _ answered stays _ =>
      rw [Sound, brk, History.record, answered, stays]
      exact h

theorem step_extend : history.step (.extend bytes grants) =
    history.record bytes (history.call bytes grants) :=
  rfl

theorem arena_record : (history.record bytes outcome).arena = outcome.state :=
  rfl

theorem extends_of_roomy (roomy : history.StaysRoomy [.extend bytes grants]) :
    history.Extends bytes grants (history.call bytes grants) := by
  obtain ⟨before, after⟩ := staysRoomy_singleton.1 roomy
  rw [step_extend, arena_record] at after
  exact call_extends before after

theorem Sound.step (h : history.Sound origin) (roomy : history.StaysRoomy [move]) :
    (history.step move).Sound origin := by
  cases move with
  | extend bytes grants =>
      rw [step_extend]
      exact h.record (extends_of_roomy roomy)
  | foreign bytes => exact Orderly.take h bytes

theorem Sound.run (h : history.Sound origin) (roomy : history.StaysRoomy moves) :
    (history.run moves).Sound origin := by
  induction moves generalizing history with
  | nil => exact h
  | cons move rest ih =>
      exact ih (h.step (staysRoomy_singleton.2 ⟨roomy.1, roomy.2.roomy⟩)) roomy.2

/-- An extension yields aligned memory that ends at the new break, or it is refused and changes
    nothing. -/
theorem Extends.answer (h : history.Extends bytes grants outcome) :
    (∃ base, outcome.result = .ok base ∧ base % unit = 0 ∧ history.brk ≤ base ∧
      base < history.brk + unit ∧ base + bytes = (history.record bytes outcome).brk ∧
      (history.record bytes outcome).own =
        history.own ++ [{ start := base, stop := base + bytes }]) ∨
    outcome.result = .error (.refused (.outOfMemory bytes)) ∧
      (history.record bytes outcome).brk = history.brk ∧
      (history.record bytes outcome).arena.window = history.arena.window ∧
      (history.record bytes outcome).own = history.own := by
  cases h with
  | risen _ _ answered moved =>
      refine .inl ⟨_, answered, add_padding_mod _, Nat.le_add_right _ _, ?_, moved.symm, ?_⟩
      · exact Nat.add_lt_add_left (padding_lt _) _
      · rw [record, answered]
  | refused _ answered stays window =>
      exact .inr ⟨answered, stays, window, by rw [record, answered]⟩

theorem Extends.refused_iff (h : history.Extends bytes grants outcome) :
    outcome.result = .error (.refused (.outOfMemory bytes)) ↔
      incrementBound ≤ bytes + padding history.brk ∨
        grants history.brk (bytes + padding history.brk) = false := by
  cases h with
  | risen small granted answered _ =>
      simp only [answered, granted, reduceCtorEq, false_iff, or_false, Nat.not_le]
      exact small
  | refused reason answered _ _ => exact iff_of_true answered reason

/-- An extension behind any history, and all the memory that the arena has after it. The memory
    ascends, and nobody else has any of it. -/
theorem extend_fresh {arena : BreakArena}
    (roomy : ({ arena } : History).StaysRoomy (moves ++ [.extend bytes grants])) :
    let before := ({ arena } : History).run moves
    let outcome := before.call bytes grants
    let after := before.step (.extend bytes grants)
    ((∃ base, outcome.result = .ok base ∧ base % 16 = 0 ∧ before.brk ≤ base ∧
        base < before.brk + 16 ∧ base + bytes = after.brk ∧
        after.own = before.own ++ [{ start := base, stop := base + bytes }]) ∨
      outcome.result = .error (.refused (.outOfMemory bytes)) ∧ after.brk = before.brk ∧
        after.arena.window = before.arena.window ∧ after.own = before.own) ∧
    (outcome.result = .error (.refused (.outOfMemory bytes)) ↔
      2 ^ 63 - 1 < bytes + padding before.brk ∨
        grants before.brk (bytes + padding before.brk) = false) ∧
    after.own.Pairwise (fun region later => region.stop ≤ later.start) ∧
    after.own.Pairwise Region.Disjoint ∧
    (∀ region ∈ after.own, arena.source.position ≤ region.start) ∧
    ∀ region ∈ after.own, ∀ other ∈ after.foreign, region.Disjoint other := by
  intro before outcome after
  obtain ⟨first, last⟩ := staysRoomy_append.1 roomy
  have start : Sound arena.source.position { arena } := Orderly.new _
  have sound : after.Sound arena.source.position := (start.run first).step last
  have extends' : before.Extends bytes grants outcome := extends_of_roomy last
  refine ⟨extends'.answer, extends'.refused_iff, sound.ascending, sound.disjoint, ?_, ?_⟩
  · exact fun region mem => (sound.within region mem).1
  · exact fun region mem other taken => Region.disjoint_of_le (sound.apart region mem other taken)

/-- The break starts at an odd place, and other code takes an odd number of bytes. -/
theorem extend_fresh_at_odd_breaks :
    let arena : BreakArena := { source := { position := 1003 } }
    let moves : List Move := [.extend 24 fun _ _ => true, .foreign 5]
    let after := (({ arena } : History).run moves).step (.extend 40 fun _ _ => true)
    ({ arena } : History).StaysRoomy (moves ++ [.extend 40 fun _ _ => true]) ∧
      after.own = [⟨1008, 1032⟩, ⟨1040, 1080⟩] ∧ after.foreign = [⟨1032, 1037⟩] ∧
      after.own.Pairwise Region.Disjoint := by
  intro arena moves after
  have roomy : ({ arena } : History).StaysRoomy (moves ++ [.extend 40 fun _ _ => true]) := by
    decide +kernel
  exact ⟨roomy, by decide +kernel, by decide +kernel, (extend_fresh roomy).2.2.2.1⟩

end History

end NextFit.BreakArena
