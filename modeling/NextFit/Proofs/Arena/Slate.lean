import NextFit.Proofs.Arena.Segment
import NextFit.Proofs.Pool.Strung

/-! # Segments as slates

A segment takes a header wherever it has eight bytes, whoever was granted them, as long as the fields
fit words. So a pool whose links can be followed through a segment is strung there, with everything
that can be read in the segment as what is known.
-/

namespace NextFit.Segment

open FreeBlock

variable {segment : Segment}

/-- What is known about the headers of a segment that is as long as it was. -/
structure Bears (origin segment : Segment) (ledger : Ledger) : Prop where
  extent : origin.SameExtent segment
  stands : segment.Stands ledger.header?

/-- Where the segment has room for a header. -/
def Spot (segment : Segment) (address : Nat) : Prop :=
  segment.contains address unit = true

instance (segment : Segment) : DecidablePred segment.Spot :=
  fun _ => inferInstanceAs (Decidable (_ = true))

theorem Spot.lt_wordBound {address : Nat} (h : segment.Spot address) : address < wordBound := by
  obtain ⟨low, -, high⟩ := contains_eq_true_iff.1 h
  have whole : unit = 8 := rfl
  have words : wordBound = UInt32.size := rfl
  rcases segment.addressable with empty | bound
  · rw [brk, empty] at high
    omega
  · rw [brk] at high
    omega

theorem slate (origin : Segment) : Arena.Slate origin.Bears origin.Spot (wordBound - 1) where
  unit_pos := by decide
  load h known := by
    obtain ⟨inside, stands⟩ := h.stands _ _ known
    exact (load_eq inside).trans (congrArg _ stands)
  store := by
    intro segment ledger address header h spot leads fits
    have within : segment.contains address unit = true := by
      rw [h.extent.contains]
      exact spot
    have next : header.next < wordBound := by
      rcases leads with sentinel | leads
      · rw [sentinel]
        decide
      · exact leads.lt_wordBound
    have words : 0 < wordBound := by decide
    obtain ⟨segment', stored, extent, stands⟩ := h.stands.store within next (by omega)
    exact ⟨segment', stored, h.extent.trans extent, stands⟩

/-- Links that lead from spot to spot are known. -/
theorem linked_of_links {pool : Pool Segment} {start : Nat} {blocks : List FreeBlock}
    (links : pool.Links start blocks) (spots : ∀ b ∈ blocks, pool.arena.Spot b.address) :
    Linked (pool.record? (pool.arena.survey [])) blocks := by
  induction links with
  | stop => trivial
  | @block address header rest apart load links ih =>
      obtain ⟨inside, spots⟩ := List.forall_mem_cons.1 spots
      refine ⟨?_, ih spots⟩
      have spelled : headerAt pool.arena.memory address = header :=
        Except.ok.inj ((load_eq inside).symm.trans load)
      have known : (pool.arena.survey []).header? address = some header :=
        (if_pos inside).trans (congrArg some spelled)
      rw [Pool.record?_of_ne apart, known, ← links.start_eq]

/-- A pool is strung on the blocks that it lists if they are in order and have room. -/
theorem strung_of_blocks {pool : Pool Segment} {blocks : List FreeBlock}
    (listed : pool.blocks = .ok blocks) (sentinel : pool.freeList.sentinel.size = 0)
    (used : pool.freeList.cursor ≠ none) (ordered : Ordered unit blocks)
    (placed : ∀ b ∈ blocks, b.Placed unit pool.arena.Spot (wordBound - 1))
    (node : IsNode blocks pool.start) :
    pool.Strung pool.arena.Bears pool.arena.Spot (wordBound - 1) (pool.arena.survey []) blocks := by
  have links : pool.Links pool.freeList.sentinel.next blocks := by
    obtain ⟨cursor, used⟩ := Option.ne_none_iff_exists'.1 used
    simp only [Pool.blocks, used] at listed
    exact Pool.links_of_blocksFrom listed
  constructor
  case keeps => exact ⟨.refl _, pool.arena.stands_survey []⟩
  case linked =>
    refine ⟨?_, linked_of_links links fun b mem => (placed b mem).spot⟩
    show some pool.freeList.sentinel = some { size := 0, next := firstAddress blocks }
    rw [← links.start_eq, ← sentinel]
  case ordered => exact ordered
  case placed => exact placed
  case node => exact node
  case unused => exact fun unused => absurd unused used

end NextFit.Segment
