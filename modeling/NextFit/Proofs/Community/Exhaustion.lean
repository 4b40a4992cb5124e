import NextFit.Proofs.Arena.Growth
import NextFit.Proofs.Community

/-! # When memory runs out

A heap asks its arena for the units that a request needs, or for the least number that it was told to
ask for if that is more, and it asks only once. So near the end of a segment a request can fail although
there is room for it: it fails if and only if no free block has enough units and the segment does not
grow by what the heap asks for.
-/

namespace NextFit

namespace Layout

variable {unit units size bytes : Nat} {reply : Nat → Except Failure Nat} {layout rest : Layout}
  {result : Except Failure Nat} {granted : List Region}

/-- Only for want of memory is a request refused, and no more bytes are granted than there are sizes. -/
structure Limited (reply : Nat → Except Failure Nat) : Prop where
  declines : ∀ bytes failure, reply bytes = .error failure → failure = .refused (.outOfMemory bytes)
  grants : ∀ bytes base, reply bytes = .ok base → bytes < Size.bound

theorem Acquires.outOfMemory_iff (limited : Limited reply)
    (h : layout.Acquires unit reply units result rest granted) :
    result = .error (.refused (.outOfMemory bytes)) ↔
      (∀ b ∈ layout.free, b.size < units) ∧
        (∀ base, reply (layout.demand units * unit) ≠ .ok base) ∧
        bytes = min (layout.demand units * unit) Size.greatest := by
  rw [← (take?_eq_none_iff : layout.take? unit units = none ↔ _)]
  have sizes : Size.greatest + 1 = Size.bound := by decide
  cases h with
  | found first => simp [first]
  | overlarge none large =>
      have refused : ∀ base, reply (layout.demand units * unit) ≠ .ok base := fun base answer =>
        absurd (limited.grants _ _ answer) (Nat.not_lt.2 large)
      have least : min (layout.demand units * unit) Size.greatest = Size.greatest := by omega
      simp [none, refused, least, eq_comm]
  | declined none fits answer =>
      have least : min (layout.demand units * unit) Size.greatest = layout.demand units * unit := by
        omega
      simp [none, answer, least, limited.declines _ _ answer, eq_comm]
  | extended none fits answer second => simp [answer]

theorem Allocates.outOfMemory_iff (limited : Limited reply)
    (h : layout.Allocates unit reply size result rest granted) :
    result = .error (.refused (.outOfMemory bytes)) ↔
      (size ⌈/⌉ unit + 1) * unit < Size.bound ∧
        (∀ b ∈ layout.free, b.size < size ⌈/⌉ unit + 1) ∧
        (∀ base, reply (layout.demand (size ⌈/⌉ unit + 1) * unit) ≠ .ok base) ∧
        bytes = min (layout.demand (size ⌈/⌉ unit + 1) * unit) Size.greatest := by
  cases h with
  | oversized large => simp [Nat.not_lt.2 large]
  | @served result _ _ fits acquires =>
      rw [← acquires.outOfMemory_iff limited]
      cases result with
      | ok block => simp [Except.map]
      | error failure => simp [Except.map, fits]

end Layout

theorem Segment.limited_reply (segment : Segment) : Layout.Limited (Arena.reply segment) where
  declines := fun _ _ answer => reply_error answer
  grants := by
    intro bytes base answer
    have words : wordBound < Size.bound := by decide
    have room := (exists_extend_iff.1 ⟨base, answer⟩).2
    omega

namespace Community

/-- How an allocation fails, behind any use of a segment: the heap has no block of so many units, and the
    segment does not grow by as much as the heap asks for. Only if the heap asks for no more than
    it needs does this tell that there is no room for the request. -/
theorem outOfMemory_iff_demand {segment : Segment} {configs : List HeapConfig} {turns : List Turn}
    (permitted : (new segment configs).PermitsAll turns) :
    let community := (new segment configs).run turns
    ∀ index client size, community.client? index = some client →
      let units := size ⌈/⌉ 8 + 1
      let demand := max units client.heap.config.minExtensionUnits
      ∃ free, client.heap.freeBlocks = .ok free ∧
      (∀ bytes, (Heap.allocate size client.heap).result = .error (.refused (.outOfMemory bytes)) ↔
        units * 8 < Size.bound ∧ (∀ b ∈ free, b.size < units) ∧
          (∀ base, (Segment.extend (demand * 8) client.heap.arena).result ≠ .ok base) ∧
          bytes = min (demand * 8) Size.greatest) ∧
      (client.heap.config.minExtensionUnits ≤ units → ∀ bytes,
        (Heap.allocate size client.heap).result = .error (.refused (.outOfMemory bytes)) →
          bytes = units * 8 ∧ (Segment.extend (units * 8) client.heap.arena).result =
            .error (.refused (.outOfMemory (units * 8)))) := by
  intro community index client size found units demand
  have sound : community.Sound segment.brk := (Sound.new segment configs).run permitted
  obtain ⟨ledger, free, -, served⟩ := sound.serves index client found
  have laws := Segment.laws_serves segment.brk (community.sublist_obtained (some index))
  obtain ⟨result, -, rest, granted, allocates, ended, -⟩ := served.allocate laws size
  have fails : ∀ bytes,
      (Heap.allocate size client.heap).result = .error (.refused (.outOfMemory bytes)) ↔
        units * 8 < Size.bound ∧ (∀ b ∈ free, b.size < units) ∧
          (∀ base, (Segment.extend (demand * 8) client.heap.arena).result ≠ .ok base) ∧
          bytes = min (demand * 8) Size.greatest := by
    intro bytes
    rw [ended]
    exact allocates.outOfMemory_iff (Segment.limited_reply _)
  refine ⟨free, served.freeBlocks_eq laws, fails, ?_⟩
  intro modest bytes failed
  obtain ⟨fits, -, stays, least⟩ := (fails bytes).1 failed
  have same : demand = units := Nat.max_eq_left modest
  rw [same] at stays least
  refine ⟨least.trans (Nat.min_eq_left (Nat.le_sub_one_of_lt fits)), ?_⟩
  cases answer : (Segment.extend (units * 8) client.heap.arena).result with
  | ok base => exact absurd answer (stays base)
  | error failure => rw [Segment.reply_error answer]

/-- A free block is too small by one unit. The segment has room for this unit, but not for as many as
    the request needs. -/
theorem outOfMemory_iff_demand_full :
    let heaps := new (Segment.default.withLimit 40) [{ minExtensionUnits := 2 }]
    let turns : List Turn := [.request 0 (.allocate 24), .request 0 (.deallocate 0x10040008)]
    heaps.PermitsAll turns ∧ ∃ client, (heaps.run turns).client? 0 = some client ∧
      client.heap.freeBlocks = .ok [{ address := 0x10040000, size := 4 }] ∧
      (Heap.allocate 30 client.heap).result = .error (.refused (.outOfMemory 40)) ∧
      (Segment.extend ((30 ⌈/⌉ 8 + 1) * 8) client.heap.arena).result =
        .error (.refused (.outOfMemory ((30 ⌈/⌉ 8 + 1) * 8))) := by
  intro heaps turns
  have permitted : heaps.PermitsAll turns := by decide
  obtain ⟨client, found, listed, config, stays⟩ : ∃ client,
      (heaps.run turns).client? 0 = some client ∧
      client.heap.freeBlocks = .ok [{ address := 0x10040000, size := 4 }] ∧
      client.heap.config.minExtensionUnits = 2 ∧
      (Segment.extend 40 client.heap.arena).result = .error (.refused (.outOfMemory 40)) :=
    ⟨_, rfl, by decide, by decide, by decide⟩
  have few : client.heap.config.minExtensionUnits ≤ 30 ⌈/⌉ 8 + 1 := by
    rw [config]
    decide
  obtain ⟨free, known, fails, modest⟩ := outOfMemory_iff_demand permitted 0 client 30 found
  cases known.symm.trans listed
  have failed : (Heap.allocate 30 client.heap).result = .error (.refused (.outOfMemory 40)) := by
    apply (fails 40).2
    rw [config]
    refine ⟨by decide, by decide, ?_, by decide⟩
    intro base answer
    cases stays.symm.trans answer
  exact ⟨permitted, client, found, listed, failed, (modest few 40 failed).2⟩

/-- With the usual configuration, a heap over a segment of 64 bytes fails to serve a request for 8,
    although there is room for it. A heap that asks for no more than it needs serves the request. -/
theorem outOfMemory_with_room :
    let segment := Segment.default.withLimit 64
    (Heap.allocate 8 (Heap.new segment)).result = .error (.refused (.outOfMemory 8192)) ∧
      (Segment.extend ((8 ⌈/⌉ 8 + 1) * 8) segment).result = .ok 0x10040000 ∧
      (Heap.allocate 8 (Heap.new segment { minExtensionUnits := 0 })).result = .ok 0x10040008 := by
  decide

end Community

end NextFit
