import NextFit.Proofs.Arena.Segment
import NextFit.Proofs.Heap.Guard
import NextFit.Proofs.Rounding

/-! # Which requests are too large

A heap turns a request down as too large if the bytes of its block, header included, are no size, and
for no other reason. It decides so before it looks at its pool, and nothing behind that is refused in
this way unless the arena itself does so.
-/

namespace NextFit

/-- An arena that does not grow never says that the request was too large, and to store a header is
    never refused. -/
structure Arena.Candid (A : Type) [Arena A] : Prop where
  extend : ∀ bytes size, (Arena.extend bytes : Op A Nat).Avoids (.refused (.sizeOverflow size))
  store : ∀ address header size,
    (Arena.store address header : Op A Unit).Avoids (.refused (.sizeOverflow size))

variable {A : Type} [Arena A] {failure : Failure}

theorem Arena.Candid.avoids (candid : Candid A) (size : Nat) :
    Arena.Avoids A (.refused (.sizeOverflow size)) where
  load _ _ := fun _ _ => nofun
  store address header := candid.store address header size

namespace Pool

variable (reserved : failure.Reserved) (avoids : Arena.Avoids A failure)

include avoids

theorem avoids_unlink (fit : Fit) : (unlink fit : Op (Pool A) Unit).Avoids failure := by
  apply Op.Avoids.bind (.query fun pool => notBy_header avoids pool fit.before)
  exact fun previous => avoids_setHeader avoids _ _

include reserved

theorem notBy_searchFrom (pool : Pool A) (units start steps before current : Nat) :
    failure.NotBy (pool.searchFrom units start steps before current) := by
  induction steps generalizing before current with
  | zero => exact reserved.notBy_endless
  | succ steps ih =>
      apply Failure.NotBy.bind (notBy_header avoids pool current)
      intro header
      split
      · exact .ok _
      · split
        · exact .ok _
        · exact ih current header.next

theorem notBy_search (pool : Pool A) (units start : Nat) :
    failure.NotBy (pool.search units start) :=
  .bind (notBy_header avoids pool start) fun _ => notBy_searchFrom reserved avoids pool _ _ _ _ _

theorem avoids_carveTail (units : Nat) (fit : Fit) :
    (carveTail units fit : Op (Pool A) Nat).Avoids failure := by
  refine .bind (avoids_setHeader avoids _ _) fun _ => ?_
  refine .bind (.lift (Header.notBy_stop reserved _ _ _)) fun tail => ?_
  exact .bind (.on (avoids.store tail _)) fun _ => .bind (.report _) fun _ => .pure _

theorem avoids_take (units : Nat) : (take units : Op (Pool A) (Option Nat)).Avoids failure := by
  refine .bind (.require (by cases reserved <;> nofun)) fun _ => ?_
  refine .bind avoids_useCursor fun start => ?_
  refine .bind (.query fun pool => notBy_search reserved avoids pool units start) fun found => ?_
  cases found with
  | none => exact .bind (.report _) fun _ => .pure _
  | some fit =>
      show Op.Avoids failure (ite _ _ _)
      split
      · refine .bind (.report _) fun _ => .bind (avoids_unlink avoids fit) fun _ => ?_
        exact .bind (.update _) fun _ => .pure _
      · refine .bind (avoids_carveTail reserved avoids units fit) fun tail => ?_
        exact .bind (.update _) fun _ => .pure _

end Pool

namespace Heap

omit [Arena A] in
theorem avoids_countExtension (reserved : failure.Reserved) (units : Nat) :
    (countExtension units : Op (Heap A) Unit).Avoids failure := by
  refine .bind .state fun heap => ?_
  refine .bind (.lift (Size.notBy_add reserved _ _)) fun _ => .bind (.update _) fun _ => ?_
  exact .bind (.lift (Size.notBy_add reserved _ _)) fun _ => .update _

section Refusals

variable {size : Nat} (candid : Arena.Candid A)

include candid

/-- An extension that leaves the range of sizes counts as a lack of memory. -/
theorem avoids_extend (needed : Nat) :
    (extend needed : Op (Heap A) Unit).Avoids (.refused (.sizeOverflow size)) := by
  have reserved : (Failure.refused (.sizeOverflow size)).Reserved := .refused _
  refine .bind .state fun heap => ?_
  dsimp only
  split
  case h_1 bytes _ =>
    refine .bind (.reportRefusal (.on (.on (candid.extend bytes size)))) fun base => ?_
    refine .bind (.report _) fun _ => .bind (avoids_countExtension reserved _) fun _ => ?_
    refine .bind (.on (.on (candid.store _ _ size))) fun _ => ?_
    exact .on (Pool.avoids_insert reserved (candid.avoids size) nofun)
  case h_2 => exact .fail nofun

theorem avoids_acquire (units rounds : Nat) :
    (acquire units rounds : Op (Heap A) Nat).Avoids (.refused (.sizeOverflow size)) := by
  induction rounds with
  | zero => exact .fail nofun
  | succ rounds ih =>
      refine .bind (.on (Pool.avoids_take (.refused _) (candid.avoids size) units)) fun found => ?_
      cases found with
      | some block => exact .pure _
      | none => exact .bind (avoids_extend candid units) fun _ => ih

end Refusals

/-- A request is too large exactly if the bytes of its block are no size. -/
theorem allocate_oversized_iff (candid : Arena.Candid A) (positive : 0 < Arena.unit A)
    (heap : Heap A) (size reported : Nat) :
    (allocate size heap).result = .error (.refused (.sizeOverflow reported)) ↔
      reported = size ∧ Size.greatest < (size ⌈/⌉ Arena.unit A + 1) * Arena.unit A := by
  obtain ⟨wanted, counted, chosen⟩ := unitsFor_filter positive size
  rw [← Nat.not_le, Size.le_greatest_iff]
  split at chosen
  case isTrue fits =>
    refine iff_of_false ?_ fun large => large.2 fits
    have passed : (allocate size : Op (Heap A) Nat).Avoids (.refused (.sizeOverflow reported)) := by
      refine .lift_bind counted ?_
      simp only [chosen]
      refine .bind (.report _) fun _ => .bind (avoids_acquire candid _ _) fun block => ?_
      exact .lift (Size.notBy_add (.refused _) _ _)
    exact passed heap
  case isFalse large =>
    have refused : (allocate size).Yields heap (.error (.refused (.sizeOverflow size))) heap := by
      refine .bind (.lift counted) ?_
      simp only [chosen]
      exact .refuse _
    rw [refused.1]
    simp [large, eq_comm]

end Heap

theorem Segment.candid : Arena.Candid Segment where
  extend bytes size segment refused := by
    cases reply_error refused
  store address header size := (avoids (.refused _)).store address header

namespace Heap

/-- Up to the greatest size, and for every unit, the count of units is the exact one as long as its two
    sums are sizes. Where the other rounding ends, they agree. And a heap turns down as too large just
    what is too large: no sum on the way costs a request that could be met. -/
theorem units_exact {unit : Nat} (positive : 1 ≤ unit) (size : Nat) :
    unitsFor size unit = .ok
      (if size + unit - 1 ≤ Size.greatest ∧ size ⌈/⌉ unit + 1 ≤ Size.greatest then
        some (size ⌈/⌉ unit + 1)
      else none) ∧
    (∀ rounded, Size.roundUp size unit = .ok rounded →
      ∃ units, unitsFor size unit = .ok (some units) ∧ units * unit = rounded + unit) ∧
    ∀ (A : Type) [Arena A], Arena.unit A = unit → Arena.Candid A →
      ∀ (heap : Heap A) reported,
        (allocate size heap).result = .error (.refused (.sizeOverflow reported)) ↔
          reported = size ∧ Size.greatest < (size ⌈/⌉ unit + 1) * unit := by
  refine ⟨unitsFor_eq positive size, fun rounded raised => ?_, ?_⟩
  · exact Size.exists_units_of_roundUp positive raised
  · rintro A _ rfl candid heap reported
    exact allocate_oversized_iff candid positive heap size reported

/-- Of the greatest sizes, 8 times 2 ^ 61 bytes are too many although the units can be counted. With
    units of 12 bytes the first sum is what ends the count, one byte later. -/
theorem units_exact_at_the_end :
    unitsFor 0xfffffffffffffff1 8 = .ok (some 0x2000000000000000) ∧
    (∀ heap : Heap Segment, (allocate 0xfffffffffffffff1 heap).result =
      .error (.refused (.sizeOverflow 0xfffffffffffffff1))) ∧
    (∀ (heap : Heap Segment) reported, (allocate 0xfffffffffffffff0 heap).result ≠
      .error (.refused (.sizeOverflow reported))) ∧
    unitsFor 0xfffffffffffffff4 12 = .ok (some 0x1555555555555556) ∧
    unitsFor 0xfffffffffffffff5 12 = .ok none := by
  have positive : 1 ≤ Arena.unit Segment := by decide
  obtain ⟨counted, -, heaps⟩ := units_exact positive 0xfffffffffffffff1
  obtain ⟨-, -, heaps'⟩ := units_exact positive 0xfffffffffffffff0
  obtain ⟨most, -⟩ := units_exact (show 1 ≤ 12 by decide) 0xfffffffffffffff4
  obtain ⟨beyond, -⟩ := units_exact (show 1 ≤ 12 by decide) 0xfffffffffffffff5
  refine ⟨counted.trans (by decide), fun heap => ?_, fun heap reported => ?_,
    most.trans (by decide), beyond.trans (by decide)⟩
  · exact (heaps Segment rfl Segment.candid heap _).2 ⟨rfl, by decide⟩
  · intro refused
    exact absurd ((heaps' Segment rfl Segment.candid heap _).1 refused).2 (by decide)

end Heap

end NextFit
