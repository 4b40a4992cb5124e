import Mathlib.Algebra.Group.Nat.Defs
import NextFit.Proofs.Arena.Cover

/-! # How a segment grows

A segment grows if and only if its limit and the range of header words leave room for the new length.
Whatever else is asked of it changes no more than bytes, so at any time the regions that it handed out
are, one after another, all that lies between its base and its break.
-/

namespace NextFit.Segment

variable {segment segment' : Segment} {bytes start : Nat}

/-- A new segment, with a limit or without one. -/
theorem built {base : Nat} {made : Segment} (created : create base = .ok made)
    (limit : Option Nat) :
    (limit.elim made made.withLimit).base = base ∧
      (limit.elim made made.withLimit).length = 0 ∧
        (limit.elim made made.withLimit).limit = limit := by
  have fresh : made.base = base ∧ made.length = 0 ∧ made.limit = none := by
    unfold create at created
    split at created
    · cases created
    · split at created <;> cases created
      exact ⟨rfl, rfl, rfl⟩
  obtain ⟨atBase, empty, unlimited⟩ := fresh
  cases limit with
  | none => exact ⟨atBase, empty, unlimited⟩
  | some most => exact ⟨atBase, empty, rfl⟩

theorem writeBytes_preserves (address : Nat) (bytes : List UInt8) :
    (writeBytes address bytes).Preserves SameExtent := by
  intro segment
  unfold writeBytes
  split <;> exact ⟨rfl, rfl, rfl⟩

theorem writeWord_preserves (address value : Nat) :
    (writeWord address value).Preserves SameExtent :=
  .bind .trans (.require .refl _ _) fun _ => writeBytes_preserves address _

theorem store_preserves (address : Nat) (header : Header) :
    (store address header).Preserves SameExtent := by
  refine .bind .trans (writeWord_preserves address header.next) fun _ => ?_
  refine .bind .trans (.lift .refl _) fun sizeAddress => ?_
  exact writeWord_preserves sizeAddress header.size

theorem fill_preserves (address : Nat) (value : UInt8) (count : Nat) :
    (fill address value count).Preserves SameExtent := by
  intro segment
  unfold fill
  split
  · exact writeBytes_preserves address _ segment
  · exact .refl segment

theorem exists_extend_iff : (∃ start, (extend bytes segment).result = .ok start) ↔
    (∀ most ∈ segment.limit, segment.length + bytes ≤ most) ∧
      segment.base + segment.length + bytes ≤ wordBound := by
  have answer : (extend bytes segment).result = _ := reply_eq segment bytes
  rw [answer, ← grows_iff]
  split
  case isTrue grows => exact iff_of_true ⟨_, rfl⟩ grows
  case isFalse stays => exact iff_of_false nofun stays

theorem brk_lt (sized : segment.base < Size.bound) : segment.brk < Size.bound := by
  have words : wordBound < Size.bound := by decide
  rcases segment.addressable with empty | reached
  · rw [brk, empty]
    exact sized
  · exact Nat.lt_of_le_of_lt reached words

theorem contains_iff_of_sized (sized : segment.base < Size.bound) {address length : Nat} :
    segment.contains address length = true ↔
      segment.base ≤ address ∧ address + length ≤ segment.brk := by
  have bound := brk_lt sized
  rw [contains_eq_true_iff]
  omega

/-- All that lies behind the break is zero. -/
theorem read_untouched (segment : Segment) (length : Nat) :
    segment.memory.read segment.brk length = List.replicate length 0 := by
  refine List.eq_replicate_iff.2 ⟨Memory.length_read _ _ _, ?_⟩
  intro byte mem
  obtain ⟨index, -, rfl⟩ := List.mem_map.1 mem
  exact segment.untouched _ (Nat.le_add_right _ _)

theorem readBytes_all (sized : segment.base < Size.bound) :
    segment.readBytes segment.base segment.length =
      .ok (segment.memory.read segment.base segment.length) :=
  if_pos ((contains_iff_of_sized sized).2 ⟨Nat.le_refl _, Nat.le_refl _⟩)

/-- Growing keeps all bytes, and appends zeros. -/
theorem readBytes_grown (sized : segment.base < Size.bound)
    (answered : (extend bytes).Yields segment (.ok start) segment') :
    ∃ old, segment.readBytes segment.base segment.length = .ok old ∧
      segment'.readBytes segment.base (segment.length + bytes) =
        .ok (old ++ List.replicate bytes 0) := by
  obtain ⟨-, base, length, -, memory, -⟩ := extend_ok answered
  refine ⟨_, readBytes_all sized, ?_⟩
  rw [← base] at sized
  rw [← base, ← length, readBytes_all sized, memory, base, length, Memory.read_add]
  rw [← read_untouched segment bytes, brk]

/-- What may be asked of a segment. -/
inductive Action where
  | extend (bytes : Nat)
  | store (address : Nat) (header : Header)
  | fill (address : Nat) (value : UInt8) (count : Nat)
  | writeBytes (address : Nat) (bytes : List UInt8)

/-- A segment, and the memory that it handed out so far. -/
structure History where
  segment : Segment
  granted : List Region := []

namespace History

variable {history : History} {origin : Segment} {actions : List Action}

def record (history : History) (bytes : Nat) (outcome : Outcome Segment Nat) : History where
  segment := outcome.state
  granted :=
    match outcome.result with
    | .ok base => history.granted ++ [{ start := base, stop := base + bytes }]
    | .error _ => history.granted

def step (history : History) : Action → History
  | .extend bytes => history.record bytes (Segment.extend bytes history.segment)
  | .store address header =>
      { history with segment := (Segment.store address header history.segment).state }
  | .fill address value count =>
      { history with segment := (Segment.fill address value count history.segment).state }
  | .writeBytes address bytes =>
      { history with segment := (Segment.writeBytes address bytes history.segment).state }

def run (history : History) (actions : List Action) : History :=
  actions.foldl step history

theorem step_of_ok (answered : (Segment.extend bytes).Yields history.segment (.ok start) segment') :
    history.step (.extend bytes) =
      { segment := segment'
        granted := history.granted ++ [{ start, stop := start + bytes }] } := by
  rw [step, record, answered.1, answered.2]

theorem step_of_error {failure : Failure}
    (answered : (Segment.extend bytes).Yields history.segment (.error failure) segment') :
    history.step (.extend bytes) = history := by
  rw [step, record, answered.1, answered.2, extend_error answered]

/-- The memory that was handed out lies, one region after another, where the segment has grown. -/
structure Grown (origin : Segment) (history : History) : Prop where
  base : history.segment.base = origin.base
  limit : history.segment.limit = origin.limit
  follow : Region.Follow origin.brk history.granted history.segment.brk

namespace Grown

theorem new (origin : Segment) : Grown origin { segment := origin } :=
  ⟨rfl, rfl, rfl⟩

theorem rewrite (h : history.Grown origin) (extent : history.segment.SameExtent segment') :
    Grown origin { history with segment := segment' } where
  base := extent.base.trans h.base
  limit := extent.limit.trans h.limit
  follow := extent.brk ▸ h.follow

theorem extend (h : history.Grown origin) (bytes : Nat) :
    (history.step (.extend bytes)).Grown origin := by
  have ended := Op.yields_run (Segment.extend bytes) history.segment
  cases answer : (Segment.extend bytes history.segment).result with
  | ok start =>
      rw [answer] at ended
      rw [step_of_ok ended]
      obtain ⟨rfl, base, length, limit, -⟩ := extend_ok ended
      have above : history.segment.brk + bytes =
          (Segment.extend bytes history.segment).state.brk := by
        rw [brk, brk, base, length, Nat.add_assoc]
      refine ⟨base.trans h.base, limit.trans h.limit, ?_⟩
      rw [← above]
      exact h.follow.append (Nat.le_add_right _ _)
  | error failure =>
      rw [answer] at ended
      rw [step_of_error ended]
      exact h

theorem step (h : history.Grown origin) (action : Action) :
    (history.step action).Grown origin := by
  cases action with
  | extend bytes => exact h.extend bytes
  | store address header => exact h.rewrite (store_preserves address header _)
  | fill address value count => exact h.rewrite (fill_preserves address value count _)
  | writeBytes address bytes => exact h.rewrite (writeBytes_preserves address bytes _)

theorem run (h : history.Grown origin) (actions : List Action) :
    (history.run actions).Grown origin := by
  induction actions generalizing history with
  | nil => exact h
  | cons action rest ih => exact ih (h.step action)

end Grown

/-- Any use of a segment, and one more request for bytes. It is granted exactly if the limit and the
    address space leave room, and then yields zeros behind all that there was; else nothing changes.
    What was handed out is the range from the base to the break. -/
theorem extend_exact {base : Nat} {made : Segment} (sized : base < Size.bound)
    (created : create base = .ok made) (limit : Option Nat) (actions : List Action) (bytes : Nat) :
    let origin := limit.elim made made.withLimit
    let before := ({ segment := origin } : History).run actions
    let outcome := Segment.extend bytes before.segment
    ((∃ start, outcome.result = .ok start) ↔
      (∀ most ∈ limit, before.segment.length + bytes ≤ most) ∧
        base + before.segment.length + bytes ≤ 2 ^ 32) ∧
    (∀ start, outcome.result = .ok start → start = before.segment.brk ∧
      outcome.state.base = base ∧ outcome.state.limit = limit ∧
      outcome.state.length = before.segment.length + bytes ∧
      ∃ old, before.segment.readBytes base before.segment.length = .ok old ∧
        outcome.state.readBytes base (before.segment.length + bytes) =
          .ok (old ++ List.replicate bytes 0)) ∧
    (∀ failure, outcome.result = .error failure →
      failure = .refused (.outOfMemory bytes) ∧ outcome.state = before.segment) ∧
    Region.Follow base before.granted before.segment.brk ∧
    before.granted.Pairwise Region.Disjoint ∧
    (∀ address, (∃ region ∈ before.granted, address ∈ region) ↔
      base ≤ address ∧ address < before.segment.brk) ∧
    (∀ region ∈ before.granted, region.start ≠ 0) ∧
    ∀ address length, before.segment.contains address length = true ↔
      base ≤ address ∧ address + length ≤ before.segment.brk := by
  intro origin before outcome
  obtain ⟨atBase, empty, limited⟩ := built created limit
  have grown : before.Grown origin := (Grown.new origin).run actions
  have base' : before.segment.base = base := grown.base.trans atBase
  have limit' : before.segment.limit = limit := grown.limit.trans limited
  have follow : Region.Follow base before.granted before.segment.brk := by
    have follow := grown.follow
    rwa [brk, atBase, empty, Nat.add_zero] at follow
  have ended := Op.yields_run (Segment.extend bytes) before.segment
  refine ⟨?_, ?_, ?_, follow, follow.pairwise_disjoint, ?_, ?_, ?_⟩
  · rw [← base', ← limit']
    exact exists_extend_iff
  · intro first answer
    rw [answer] at ended
    obtain ⟨place, same, length, same', -⟩ := extend_ok ended
    refine ⟨place, same.trans base', same'.trans limit', length, ?_⟩
    rw [← base'] at sized ⊢
    exact readBytes_grown sized ended
  · intro failure answer
    rw [answer] at ended
    exact ⟨reply_error answer, extend_error ended⟩
  · intro address
    constructor
    · rintro ⟨region, mem, low, high⟩
      obtain ⟨first, last⟩ := follow.inside mem
      exact ⟨Nat.le_trans first low, Nat.lt_of_lt_of_le high last⟩
    · exact fun bounds => follow.exists_mem bounds.1 bounds.2
  · intro region mem zero
    have above := (follow.inside mem).1
    have nonzero := base' ▸ before.segment.base_ne_zero
    omega
  · intro address length
    rw [← base'] at sized ⊢
    exact contains_iff_of_sized sized

/-- A segment of at most 24 bytes at the end of the address space. It refuses a request, is written to,
    and then grows to the very end. -/
theorem extend_exact_at_end :
    let actions : List Action := [.extend 5, .extend 20, .writeBytes 0xFFFFFFE8 [1, 2, 3, 4, 5]]
    ∃ made, create 0xFFFFFFE8 = .ok made ∧ 0xFFFFFFE8 < Size.bound ∧
      let before := ({ segment := made.withLimit 24 } : History).run actions
      let outcome := Segment.extend 19 before.segment
      before.granted = [⟨0xFFFFFFE8, 0xFFFFFFED⟩] ∧ outcome.result = .ok 0xFFFFFFED ∧
        outcome.state.readBytes 0xFFFFFFE8 24 = .ok ([1, 2, 3, 4, 5] ++ List.replicate 19 0) := by
  intro actions
  have sized : 0xFFFFFFE8 < Size.bound := by decide
  refine ⟨_, rfl, sized, ?_⟩
  intro before outcome
  obtain ⟨grows, granted, -⟩ := extend_exact sized rfl (some 24) actions 19
  obtain ⟨start, answered⟩ := grows.2 ⟨by decide +kernel, by decide +kernel⟩
  obtain ⟨place, -, -, -, old, was, now⟩ := granted start answered
  have stop : before.segment.brk = 0xFFFFFFED := by decide +kernel
  have whole : before.segment.length + 19 = 24 := by decide +kernel
  have written : before.segment.readBytes 0xFFFFFFE8 before.segment.length =
      .ok [1, 2, 3, 4, 5] := by decide +kernel
  refine ⟨by decide +kernel, ?_, ?_⟩
  · exact answered.trans (congrArg Except.ok (place.trans stop))
  · cases was.symm.trans written
    rw [← whole]
    exact now

end History

end NextFit.Segment
