import NextFit.Proofs.Arena.Growth
import NextFit.Proofs.Client.Safety
import NextFit.Proofs.Community

/-! # Which addresses are aligned

A heap cuts its memory on a grid of units that starts where the memory starts, and a segment hands out
memory from where it ended before. Whoever takes a number of bytes that is no multiple of the unit
shifts the grids of all that is handed out later. If nobody does, every address is a multiple of the
unit.
-/

namespace NextFit

namespace Region

variable {unit start stop : Nat} {regions : List Region}

/-- The region consists of whole units. -/
def Whole (unit : Nat) (region : Region) : Prop :=
  (region.stop - region.start) % unit = 0

instance (unit : Nat) : DecidablePred (Whole unit) :=
  fun _ => inferInstanceAs (Decidable (_ = _))

theorem Follow.aligned (h : Follow start regions stop) (aligned : start % unit = 0)
    (whole : ∀ region ∈ regions, region.Whole unit) :
    (∀ region ∈ regions, region.start % unit = 0) ∧ stop % unit = 0 := by
  induction regions generalizing start with
  | nil =>
      cases h
      exact ⟨by simp, aligned⟩
  | cons region rest ih =>
      obtain ⟨rfl, order, follow⟩ := h
      have units : region.Whole unit := whole region List.mem_cons_self
      have aligned' : region.stop % unit = 0 := by
        rw [← Nat.add_sub_cancel' order, Nat.add_mod, aligned, units, Nat.zero_mod]
      obtain ⟨later, last⟩ :=
        ih follow aligned' fun region mem => whole region (List.mem_cons_of_mem _ mem)
      exact ⟨List.forall_mem_cons.2 ⟨aligned, later⟩, last⟩

end Region

namespace Community

variable {community : Community} {start index : Nat} {client : Client Segment}
  {turn : Turn} {turns : List Turn} {region : Region}

theorem mem_regions_iff :
    region ∈ community.regions ↔ ∃ holder, region ∈ community.obtained holder := by
  constructor
  · intro mem
    obtain ⟨g, granted, rfl⟩ := List.mem_map.1 mem
    exact ⟨g.1, List.mem_map_of_mem (List.mem_filter.2 ⟨granted, decide_eq_true rfl⟩)⟩
  · rintro ⟨holder, mem⟩
    exact (community.sublist_obtained holder).subset mem

theorem Serves.whole (h : community.Serves start index client) :
    ∀ region ∈ community.obtained (some index), region.Whole Segment.unit := by
  obtain ⟨ledger, free, regions, sound⟩ := h
  intro region mem
  obtain ⟨n, -, stop⟩ := sound.accounts.holds.wellFormed.whole region (regions ▸ mem)
  rw [Region.Whole, stop, Nat.add_sub_cancel_left]
  exact Nat.mul_mod_left _ _

/-- Whatever a client holds lies on the grid of a region that its heap obtained. -/
theorem Serves.exists_grid {a : Allocation} (h : community.Serves start index client)
    (held : a ∈ client.live) : 8 ≤ a.address ∧ ∃ region ∈ community.obtained (some index),
      a.address - 8 ∈ region ∧ a.address % 8 = region.start % 8 := by
  obtain ⟨ledger, free, regions, sound⟩ := h
  have laws := Segment.laws_serves start (community.sublist_obtained (some index))
  have behind : 8 ≤ a.address := sound.behind a held
  have mem : a.block Segment.unit ∈ free ++ client.blocks :=
    List.mem_append_right _ (List.mem_map_of_mem held)
  have byte : (a.block Segment.unit).address ∈ (a.block Segment.unit).span Segment.unit :=
    ⟨Nat.le_refl _, Nat.lt_add_of_pos_right (Nat.mul_pos (Nat.succ_pos _) (by decide))⟩
  obtain ⟨region, granted, inside⟩ := (sound.accounts.occupied_iff laws).1 ⟨_, mem, byte⟩
  have grid := sound.accounts.aligned laws mem granted byte inside
  refine ⟨behind, region, regions ▸ granted, inside, ?_⟩
  rw [Nat.mod_eq_sub_mod behind]
  exact grid

theorem exists_client?_step (permitted : community.Permits turn)
    (holder : turn.holder = some index) :
    ∃ client, (community.step turn).client? index = some client := by
  apply exists_client?
  rw [length_heaps_step]
  cases turn with
  | foreign bytes => cases holder
  | request index' request =>
      cases holder
      obtain ⟨client, found, -⟩ := permitted
      have found : community.client? index = some client := found
      rw [client?_eq] at found
      obtain ⟨heap, placed, -⟩ := Option.map_eq_some_iff.1 found
      exact (List.getElem?_eq_some_iff.1 placed).1

/-- What the heaps obtain consists of whole units. -/
theorem Sound.whole_run (h : community.Sound start) (permitted : community.PermitsAll turns)
    (whole : ∀ index, ∀ region ∈ community.obtained (some index), region.Whole Segment.unit) :
    ∀ index, ∀ region ∈ (community.run turns).obtained (some index),
      region.Whole Segment.unit := by
  induction turns generalizing community with
  | nil => exact whole
  | cons turn rest ih =>
      obtain ⟨advance, serves⟩ := h.advance permitted.1
      refine ih (h.step permitted.1).1 permitted.2 ?_
      intro index region mem
      by_cases holder : turn.holder = some index
      · obtain ⟨client, found⟩ := exists_client?_step permitted.1 holder
        exact (serves index client holder found).whole region mem
      · rw [advance.obtained index holder] at mem
        exact whole index region mem

/-- An allocation behind any use of a segment, by heaps and by others. Its address lies on the grid of
    a region that the heap obtained, so it is a multiple of the unit just if the start of this region
    is. All of them are if nobody ever took another number of bytes than whole units. -/
theorem aligned_with_region {base : Nat} {made : Segment} (created : Segment.create base = .ok made)
    (limit : Option Nat) (actions : List Segment.Action) {configs : List HeapConfig} :
    let earlier := ({ segment := limit.elim made made.withLimit } : Segment.History).run actions
    (new earlier.segment configs).PermitsAll turns →
    let community := (new earlier.segment configs).run turns
    ∀ index client size address, community.client? index = some client →
      (Heap.allocate size client.heap).result = .ok address →
      let after := community.step (.request index (.allocate size))
      8 ≤ address ∧
      (∃ region ∈ after.obtained (some index), address - 8 ∈ region ∧
        address % 8 = region.start % 8) ∧
      ((∀ region ∈ earlier.granted ++ community.obtained none, region.Whole 8) →
        address % 8 = 0) := by
  intro earlier permitted community index client size address found given after
  have sound : community.Sound earlier.segment.brk := (Sound.new _ configs).run permitted
  have next : community.Permits (.request index (.allocate size)) := ⟨client, found, trivial⟩
  have last : community.PermitsAll [.request index (.allocate size)] := ⟨next, trivial⟩
  have stepped : after = community.replace index (client.step (.allocate size)) :=
    step_request found
  have sound' : after.Sound earlier.segment.brk := (sound.step next).1
  have found' : after.client? index = some (client.step (.allocate size)) := by
    rw [stepped]
    exact client?_replace_self found
  have held : ({ address, size } : Allocation) ∈ (client.step (.allocate size)).live := by
    rw [Client.step_allocate given]
    exact List.mem_cons_self
  obtain ⟨behind, region, mem, inside, grid⟩ :=
    (sound'.serves index _ found').exists_grid held
  refine ⟨behind, ⟨region, mem, inside, grid⟩, ?_⟩
  intro whole
  obtain ⟨whole, others⟩ := List.forall_mem_append.1 whole
  have foreign : after.obtained none = community.obtained none := by
    rw [stepped]
    exact obtained_grant_of_ne (by simp)
  have grown := (Segment.History.Grown.new (limit.elim made made.withLimit)).run actions
  have aligned : earlier.segment.brk % 8 = 0 := by
    refine (grown.follow.aligned ?_ whole).2
    rw [Segment.brk, (Segment.built created limit).2.1]
    exact Segment.base_aligned _
  have all : ∀ region ∈ after.regions, region.Whole 8 := by
    intro region mem
    obtain ⟨holder, mem⟩ := mem_regions_iff.1 mem
    cases holder with
    | none => exact others region (foreign ▸ mem)
    | some index' =>
        have before := (Sound.new earlier.segment configs).whole_run permitted fun _ _ none =>
          absurd none List.not_mem_nil
        exact sound.whole_run last before index' region mem
  rw [grid]
  exact (sound'.keeps.follow.aligned aligned all).1 region (mem_regions_iff.2 ⟨_, mem⟩)

/-- Others use a segment before and between two heaps, always in whole units. An address from a block
    that was merged with new memory is aligned. -/
theorem aligned_with_region_merged :
    let actions : List Segment.Action := [.extend 16, .writeBytes 0x10040000 [7], .extend 8]
    let earlier := ({ segment := Segment.default } : Segment.History).run actions
    let heaps := new earlier.segment [{ minExtensionUnits := 4 }, { minExtensionUnits := 0 }]
    let turns : List Turn := [.request 0 (.allocate 9), .foreign 24, .request 1 (.allocate 1),
      .request 1 (.deallocate 0x10040058)]
    let after := (heaps.run turns).step (.request 1 (.allocate 20))
    Segment.create 0x10040000 = .ok .default ∧ heaps.PermitsAll turns ∧
      (∃ client, (heaps.run turns).client? 1 = some client ∧
        (Heap.allocate 20 client.heap).result = .ok 0x10040068) ∧
      (∀ region ∈ earlier.granted ++ (heaps.run turns).obtained none, region.Whole 8) ∧
      (∃ region ∈ after.obtained (some 1), 0x10040060 ∈ region ∧
        0x10040068 % 8 = region.start % 8) ∧ 0x10040068 % 8 = 0 := by
  intro actions earlier heaps turns after
  have created : Segment.create 0x10040000 = .ok .default := rfl
  have permitted : heaps.PermitsAll turns := by decide
  have whole : ∀ region ∈ earlier.granted ++ (heaps.run turns).obtained none, region.Whole 8 := by
    decide
  obtain ⟨client, found, given⟩ : ∃ client, (heaps.run turns).client? 1 = some client ∧
      (Heap.allocate 20 client.heap).result = .ok 0x10040068 := ⟨_, rfl, by decide⟩
  obtain ⟨-, grid, aligned⟩ :=
    aligned_with_region created none actions permitted 1 client 20 0x10040068 found given
  exact ⟨created, permitted, ⟨client, found, given⟩, whole, grid, aligned whole⟩

/-- Others take three bytes, and the next address is no multiple of the unit. -/
theorem unaligned_behind_odd_growth :
    let heaps := new Segment.default [{ minExtensionUnits := 0 }]
    heaps.PermitsAll [.foreign 3] ∧ ∃ client, (heaps.run [.foreign 3]).client? 0 = some client ∧
      (Heap.allocate 5 client.heap).result = .ok 0x1004000b ∧ 0x1004000b % 8 ≠ 0 :=
  ⟨by decide, _, rfl, by decide, by decide⟩

end Community

end NextFit
