import Mathlib.Data.List.Cycle
import Mathlib.Order.Bounds.Basic
import NextFit.Pool.Take
import NextFit.Pool.Insert
import NextFit.Pool.Links
import NextFit.Proofs.FreeBlock.Cut

/-! # Walks along the links

The loops over a free list do one thing: they follow the links from node to node and stop at the first
node where a test on its address and header succeeds. `Walk` says which nodes are passed on the way,
without counting steps, and each loop is such a walk in any pool (`slotFrom_of_walk`,
`searchFrom_of_walk`). On links that run through blocks in ascending order, the nodes form a cycle
(`links_cycle`), so from each of them a walk takes one lap at most (`exists_slot_walk`,
`exists_search_walk`).
-/

namespace NextFit

namespace FreeBlock

/-- The addresses of the nodes, in the order of the links, from the sentinel on. -/
def nodes (blocks : List FreeBlock) : List Nat :=
  sentinelAddress :: blocks.map (·.address)

theorem mem_nodes_iff {blocks : List FreeBlock} {address : Nat} :
    address ∈ nodes blocks ↔ IsNode blocks address := by
  simp [nodes, IsNode]

theorem length_nodes (blocks : List FreeBlock) : (nodes blocks).length = blocks.length + 1 := by
  simp [nodes]

theorem Ascending.nodup_nodes {blocks : List FreeBlock} (ascending : Ascending blocks)
    (nonzero : ∀ b ∈ blocks, b.address ≠ sentinelAddress) : (nodes blocks).Nodup := by
  refine List.nodup_cons.2 ⟨?_, ?_⟩
  · simpa using nonzero
  · exact List.pairwise_map.2 (ascending.imp Nat.ne_of_lt)

/-- The node in front of a cut is the greatest below a block if and only if the block is in the cut. -/
theorem isGreatest_iff_of_cut {low high : List FreeBlock} {address block : Nat}
    (node : IsNode (low ++ high) address) (lows : ∀ c ∈ low, c.address ≤ address)
    (highs : ∀ c ∈ high, address < c.address) :
    IsGreatest { n | IsNode (low ++ high) n ∧ n < block } address ↔
      address < block ∧ ∀ c ∈ high, block ≤ c.address := by
  constructor
  · rintro ⟨⟨-, lower⟩, greatest⟩
    refine ⟨lower, fun c mem => ?_⟩
    by_contra! below
    exact Nat.not_le_of_lt (highs c mem)
      (greatest ⟨.inr ⟨c, List.mem_append_right _ mem, rfl⟩, below⟩)
  · rintro ⟨lower, limit⟩
    refine ⟨⟨node, lower⟩, ?_⟩
    rintro n ⟨rfl | ⟨c, mem, rfl⟩, below⟩
    · exact Nat.zero_le _
    · rcases List.mem_append.1 mem with inside | beyond
      · exact lows c inside
      · exact absurd (limit c beyond) (Nat.not_le_of_lt below)

/-- There is a greatest node below every block that is not a node. -/
theorem isGreatest_below {blocks : List FreeBlock} {block : Nat} (ascending : Ascending blocks)
    (other : ¬ IsNode blocks block) :
    IsGreatest { n | IsNode blocks n ∧ n < block } (below blocks block) := by
  obtain ⟨nonzero, apart⟩ := not_or.1 other
  obtain ⟨low, high, rfl, lows, highs⟩ :=
    ascending.exists_cut fun c mem same => apart ⟨c, mem, same⟩
  have last : lastFrom sentinelAddress low < block := by
    rcases lastFrom_mem sentinelAddress low with sentinel | ⟨p, mem, same⟩
    · rw [sentinel]
      exact Nat.pos_of_ne_zero nonzero
    · exact same ▸ lows p mem
  have upper : ∀ c ∈ high, block ≤ c.address := fun c mem => Nat.le_of_lt (highs c mem)
  rw [below_of_cut lows upper, isGreatest_iff_of_cut (isNode_lastFrom low high)]
  · exact ⟨last, upper⟩
  · exact Ascending.le_lastFrom (List.pairwise_append.1 ascending).1
  · exact fun c mem => Nat.lt_trans last (highs c mem)

end FreeBlock

namespace Pool

open FreeBlock

variable {A : Type} [Arena A] {pool : Pool A} {Stops : Nat → Header → Prop} {passed : List Nat}
  {start last : Nat}

/-- From a node, the links lead through the nodes that are passed to the first one that stops. -/
inductive Walk (pool : Pool A) (Stops : Nat → Header → Prop) : (start : Nat) → (passed : List Nat) →
    (last : Nat) → Prop where
  | stop {node : Nat} {header : Header} :
      pool.header node = .ok header →
      Stops node header →
      Walk pool Stops node [] node
  | pass {node last : Nat} {header : Header} {passed : List Nat} :
      pool.header node = .ok header →
      ¬ Stops node header →
      Walk pool Stops header.next passed last →
      Walk pool Stops node (node :: passed) last

/-! ## The loops are walks -/

/-- The walk to a slot stops at the node that the block belongs behind. -/
def SlotFor (block node : Nat) (header : Header) : Prop :=
  Brackets node block header.next

/-- A search stops at a block that is large enough, and at the end of the lap. -/
def EndsSearch (units start node : Nat) (header : Header) : Prop :=
  units ≤ header.size ∨ node = start

/-- What a search has found at the node where it stops: nothing, if that is only the end of the lap. -/
def foundAt (units before node : Nat) (header : Header) : Option Fit :=
  if units ≤ header.size then some { before, block := node, header } else none

/-- Listing the blocks stops at the sentinel. -/
def AtSentinel (node : Nat) (_ : Header) : Prop :=
  node = sentinelAddress

theorem slotFrom_of_walk {block : Nat} (walk : pool.Walk (SlotFor block) start passed last)
    (steps : Nat) :
    pool.slotFrom block steps start =
      if passed.length < steps then .ok last else .error .endlessList := by
  induction walk generalizing steps with
  | stop found stops =>
      cases steps with
      | zero => rfl
      | succ steps =>
          rw [slotFrom, found]
          exact if_pos stops
  | pass found goesOn _ ih =>
      cases steps with
      | zero => rfl
      | succ steps =>
          rw [slotFrom, found]
          refine (if_neg goesOn).trans ((ih steps).trans ?_)
          simp only [List.length_cons, Nat.add_lt_add_iff_right]

theorem searchFrom_of_walk {units current : Nat}
    (walk : pool.Walk (EndsSearch units start) current passed last) {header : Header}
    (found : pool.header last = .ok header) (steps before : Nat) :
    pool.searchFrom units start steps before current =
      if passed.length < steps then .ok (foundAt units (passed.getLastD before) last header)
      else .error .endlessList := by
  induction walk generalizing steps before with
  | stop found' stops =>
      cases steps with
      | zero => rfl
      | succ steps =>
          obtain rfl : _ = header := Except.ok.inj (found'.symm.trans found)
          rw [searchFrom, found, foundAt]
          simp only [bind, Except.bind]
          split
          · rfl
          · rename_i short
            exact if_pos (stops.resolve_left short)
  | pass found' goesOn _ ih =>
      cases steps with
      | zero => rfl
      | succ steps =>
          obtain ⟨short, inside⟩ := not_or.1 goesOn
          rw [searchFrom, found']
          simp only [bind, Except.bind, if_neg short, if_neg inside]
          rw [ih found, List.getLastD_cons]
          simp only [List.length_cons, Nat.add_lt_add_iff_right]

theorem search_of_walk {units : Nat} {first header : Header} (leads : pool.header start = .ok first)
    (walk : pool.Walk (EndsSearch units start) first.next passed last)
    (found : pool.header last = .ok header) (short : passed.length < Size.bound) :
    pool.search units start = .ok (foundAt units (passed.getLastD start) last header) := by
  rw [search, leads]
  exact (searchFrom_of_walk walk found _ _).trans (if_pos short)

theorem Links.walk {blocks : List FreeBlock} (links : pool.Links start blocks) :
    pool.Walk AtSentinel start (blocks.map (·.address)) sentinelAddress := by
  induction links with
  | stop => exact .stop pool.header_sentinel rfl
  | block apart load _ ih => exact .pass ((header_of_ne apart).trans load) apart ih

/-! ## What links say -/

variable {blocks low high : List FreeBlock}

theorem Links.start_eq (h : pool.Links start blocks) : start = firstAddress blocks := by
  cases h <;> rfl

theorem Links.ne_sentinel (h : pool.Links start blocks) :
    ∀ b ∈ blocks, b.address ≠ sentinelAddress := by
  induction h with
  | stop => simp
  | block apart _ _ ih =>
      intro b mem
      rcases List.mem_cons.1 mem with rfl | later
      · exact apart
      · exact ih b later

theorem Links.behind (h : pool.Links start (low ++ high)) : pool.Links (firstAddress high) high := by
  induction low generalizing start with
  | nil => exact h.start_eq ▸ h
  | cons b rest ih =>
      cases h with
      | block _ _ rest => exact ih rest

theorem Links.header {p : FreeBlock} (h : pool.Links start (p :: high)) :
    start = p.address ∧
      pool.header p.address = .ok { size := p.size, next := firstAddress high } := by
  cases h with
  | block apart load rest =>
      refine ⟨rfl, ?_⟩
      rw [header_of_ne apart, load, ← rest.start_eq]

variable (links : pool.Links pool.freeList.sentinel.next blocks) (ascending : Ascending blocks)

/-- Each node leads to the one behind the cut. -/
theorem Links.header_cut (links : pool.Links pool.freeList.sentinel.next (low ++ high)) :
    ∃ size, pool.header (lastFrom sentinelAddress low) =
      .ok { size, next := firstAddress high } := by
  rcases List.eq_nil_or_concat low with rfl | ⟨init, p, rfl⟩
  · have first := links.start_eq
    exact ⟨_, congrArg (fun next => Except.ok (Header.mk _ next)) first⟩
  · rw [List.concat_eq_append, List.append_assoc] at links
    rw [List.concat_eq_append, lastFrom_concat]
    exact ⟨p.size, links.behind.header.2⟩

include links ascending

theorem exists_header {address : Nat} (node : IsNode blocks address) :
    ∃ header, pool.header address = .ok header := by
  obtain ⟨low, high, rfl, rfl, -, -⟩ := node.cut ascending links.ne_sentinel
  obtain ⟨size, found⟩ := links.header_cut
  exact ⟨_, found⟩

omit ascending in
/-- No header says more than the sizes of the nodes. -/
theorem header_size_lt {address units : Nat} {header : Header} (node : IsNode blocks address)
    (found : pool.header address = .ok header) (empty : pool.freeList.sentinel.size < units)
    (small : ∀ b ∈ blocks, b.size < units) : header.size < units := by
  rcases node with rfl | ⟨b, mem, rfl⟩
  · cases found
    exact empty
  · obtain ⟨low, high, rfl⟩ := List.append_of_mem mem
    cases found.symm.trans links.behind.header.2
    exact small b mem

/-- A node with the header it has is the last one at a cut. -/
theorem exists_cut_of_header {address : Nat} {header : Header} (node : IsNode blocks address)
    (found : pool.header address = .ok header) :
    ∃ low high, blocks = low ++ high ∧ lastFrom sentinelAddress low = address ∧
      header.next = firstAddress high ∧ (∀ c ∈ low, c.address ≤ address) ∧
      ∀ c ∈ high, address < c.address := by
  obtain ⟨low, high, rfl, last, lows, highs⟩ := node.cut ascending links.ne_sentinel
  obtain ⟨size, stands⟩ := links.header_cut
  rw [last, found] at stands
  cases stands
  exact ⟨low, high, rfl, last, rfl, lows, highs⟩

/-- The test of the walk to a slot succeeds at one node, the greatest below the block. -/
theorem slotFor_iff_isGreatest {address block : Nat} {header : Header} (node : IsNode blocks address)
    (found : pool.header address = .ok header) (other : ¬ IsNode blocks block) :
    SlotFor block address header ↔ IsGreatest { n | IsNode blocks n ∧ n < block } address := by
  obtain ⟨low, high, rfl, -, next, lows, highs⟩ :=
    exists_cut_of_header links ascending node found
  rw [isGreatest_iff_of_cut node lows highs, SlotFor, next]
  cases high with
  | nil =>
      -- The highest node leads down to the sentinel, so only what is above it belongs behind it.
      simp [Brackets, firstAddress, sentinelAddress]
  | cons b rest =>
      have up : address < b.address := highs b List.mem_cons_self
      have apart : b.address ≠ block := fun same => other (.inr ⟨b, by simp, same⟩)
      have above := (List.pairwise_cons.1 (List.pairwise_append.1 ascending).2.1).1
      simp only [Brackets, firstAddress, List.forall_mem_cons]
      constructor
      · intro between
        have limit : block < b.address := by omega
        exact ⟨by omega, Nat.le_of_lt limit, fun c mem => by have := above c mem; omega⟩
      · rintro ⟨lower, limit, -⟩
        exact .inl ⟨lower, Nat.lt_of_le_of_ne limit apart.symm⟩

omit links ascending

/-! ## Nodes in a cycle -/

/-- The header of one node has the address of the next one. -/
def LeadsTo (pool : Pool A) (node next : Nat) : Prop :=
  ∃ size, pool.header node = .ok { size, next }

/-- A walk along nodes that lead one to the next goes on until the first of them that stops. -/
theorem walk_of_isChain {header : Header} (chain : (passed ++ [last]).IsChain pool.LeadsTo)
    (goesOn : ∀ node ∈ passed, ∀ header, pool.header node = .ok header → ¬ Stops node header)
    (found : pool.header last = .ok header) (stops : Stops last header) :
    pool.Walk Stops (passed.headD last) passed last := by
  induction passed with
  | nil => exact .stop found stops
  | cons node rest ih =>
      obtain ⟨leads, chain⟩ := List.isChain_cons.1 chain
      have next : (rest.headD last) ∈ (rest ++ [last]).head? := by
        cases rest <;> simp
      obtain ⟨size, first⟩ := leads _ next
      refine .pass first (goesOn node List.mem_cons_self _ first) ?_
      exact ih chain fun node mem => goesOn node (List.mem_cons_of_mem _ mem)

theorem leadsTo_of_isChain {later : List Nat}
    (chain : (start :: (passed ++ last :: later)).IsChain pool.LeadsTo) :
    pool.LeadsTo (passed.getLastD start) last := by
  rcases List.eq_nil_or_concat passed with rfl | ⟨init, node, rfl⟩
  · exact (List.isChain_cons_cons.1 chain).1
  · rw [List.concat_eq_append, List.append_assoc, List.singleton_append, ← List.cons_append] at chain
    rw [List.concat_eq_append, List.getLastD_concat]
    exact (List.isChain_append_cons_cons.1 chain).2.1

theorem head?_nodes (blocks : List FreeBlock) :
    (blocks.map (·.address) ++ [sentinelAddress]).head? = some (firstAddress blocks) := by
  cases blocks <;> rfl

theorem Links.isChain (links : pool.Links start blocks) :
    (blocks.map (·.address) ++ [sentinelAddress]).IsChain pool.LeadsTo := by
  induction links with
  | stop => exact .singleton _
  | @block address header rest apart load links ih =>
      rw [List.map_cons, List.cons_append]
      refine List.isChain_cons.2 ⟨?_, ih⟩
      rw [head?_nodes, ← links.start_eq]
      rintro _ ⟨⟩
      exact ⟨header.size, (header_of_ne apart).trans load⟩

/-- The links lead from the sentinel through the blocks and back to the sentinel. -/
theorem links_cycle (links : pool.Links pool.freeList.sentinel.next blocks) :
    (nodes blocks : Cycle Nat).Chain pool.LeadsTo := by
  refine (Cycle.chain_coe_cons _ _ _).2 (List.isChain_cons.2 ⟨?_, links.isChain⟩)
  rw [head?_nodes, ← links.start_eq]
  rintro _ ⟨⟩
  exact ⟨pool.freeList.sentinel.size, pool.header_sentinel⟩

/-- A lap starts at any node. -/
theorem exists_lap (node : IsNode blocks start) :
    ∃ rest, (start :: rest).IsRotated (nodes blocks) := by
  obtain ⟨init, later, split⟩ := List.append_of_mem (mem_nodes_iff.2 node)
  rw [split]
  exact ⟨later ++ init, List.cons_append ▸ List.isRotated_append⟩

theorem length_of_lap {rest : List Nat} (lap : (start :: rest).IsRotated (nodes blocks)) :
    rest.length = blocks.length := by
  have whole := lap.perm.length_eq
  rw [length_nodes, List.length_cons] at whole
  exact Nat.succ.inj whole

theorem nodup_of_lap (links : pool.Links pool.freeList.sentinel.next blocks)
    (ascending : Ascending blocks) {rest : List Nat}
    (lap : (start :: rest).IsRotated (nodes blocks)) : (start :: rest).Nodup :=
  lap.nodup_iff.2 (ascending.nodup_nodes links.ne_sentinel)

/-- A lap comes back to where it starts. -/
theorem isChain_of_lap (links : pool.Links pool.freeList.sentinel.next blocks) {rest : List Nat}
    (lap : (start :: rest).IsRotated (nodes blocks)) :
    (start :: (rest ++ [start])).IsChain pool.LeadsTo := by
  have cycle := links_cycle links
  rwa [← Cycle.coe_eq_coe.2 lap, Cycle.chain_coe_cons] at cycle

/-- What is passed in front of a node is the beginning of the lap. -/
theorem prefix_of_split {rest later : List Nat} (split : rest ++ [start] = passed ++ last :: later) :
    passed <+: rest := by
  have inside : passed <+: rest ++ [start] := ⟨_, split.symm⟩
  refine (List.prefix_concat_iff.1 inside).resolve_left ?_
  rintro rfl
  simp at split

theorem length_le_of_split {rest later : List Nat} (lap : (start :: rest).IsRotated (nodes blocks))
    (split : rest ++ [start] = passed ++ last :: later) : passed.length ≤ blocks.length :=
  length_of_lap lap ▸ (prefix_of_split split).length_le

/-- Behind its first node, a lap leads through nodes that do not stop to one that does. -/
theorem walk_of_lap {rest later : List Nat} {header : Header}
    (links : pool.Links pool.freeList.sentinel.next blocks)
    (lap : (start :: rest).IsRotated (nodes blocks))
    (split : rest ++ [start] = passed ++ last :: later)
    (goesOn : ∀ node ∈ passed, ∀ header, pool.header node = .ok header → ¬ Stops node header)
    (found : pool.header last = .ok header) (stops : Stops last header) :
    ∃ first, pool.header start = .ok first ∧ pool.Walk Stops first.next passed last := by
  have chain := isChain_of_lap links lap
  rw [split] at chain
  obtain ⟨leads, chain⟩ := List.isChain_cons.1 chain
  have next : passed.headD last ∈ (passed ++ last :: later).head? := by
    cases passed <;> simp
  obtain ⟨size, first⟩ := leads _ next
  exact ⟨_, first, walk_of_isChain (List.isChain_split.1 chain).1 goesOn found stops⟩

/-- From any node, a walk comes to the slot before the lap is over. -/
theorem exists_slot_walk {block : Nat} (links : pool.Links pool.freeList.sentinel.next blocks)
    (ascending : Ascending blocks) (node : IsNode blocks start) (other : ¬ IsNode blocks block) :
    ∃ passed later, (passed ++ below blocks block :: later).IsRotated (nodes blocks) ∧
      pool.Walk (SlotFor block) start passed (below blocks block) := by
  have greatest := isGreatest_below ascending other
  obtain ⟨rest, lap⟩ := exists_lap node
  have mem : below blocks block ∈ start :: rest := lap.mem_iff.2 (mem_nodes_iff.2 greatest.1.1)
  obtain ⟨passed, later, split, fresh⟩ := List.eq_append_cons_of_mem mem
  refine ⟨passed, later, split ▸ lap, ?_⟩
  have chain := isChain_of_lap links lap
  rw [← List.cons_append, split, List.append_assoc, List.cons_append] at chain
  have first : start = passed.headD (below blocks block) := by
    cases passed with
    | nil => exact (List.cons.inj split).1
    | cons node later => exact (List.cons.inj split).1
  obtain ⟨header, found⟩ := exists_header links ascending greatest.1.1
  rw [first]
  refine walk_of_isChain (List.isChain_split.1 chain).1 ?_ found
    ((slotFor_iff_isGreatest links ascending greatest.1.1 found other).2 greatest)
  intro node mem header found stops
  have isNode : IsNode blocks node :=
    mem_nodes_iff.1 (lap.mem_iff.1 (split ▸ List.mem_append_left _ mem))
  have same := ((slotFor_iff_isGreatest links ascending isNode found other).1 stops).unique greatest
  exact fresh (same ▸ mem)

/-- From any node, a search comes to one where it stops before it has been anywhere twice, and back to its
    start at the latest. -/
theorem exists_search_walk (units : Nat) (links : pool.Links pool.freeList.sentinel.next blocks)
    (ascending : Ascending blocks) (node : IsNode blocks start) :
    ∃ first rest passed last later header, pool.header start = .ok first ∧
      (start :: rest).IsRotated (nodes blocks) ∧ rest ++ [start] = passed ++ last :: later ∧
      pool.Walk (EndsSearch units start) first.next passed last ∧
      pool.header last = .ok header ∧ EndsSearch units start last header := by
  classical
  obtain ⟨rest, lap⟩ := exists_lap node
  obtain ⟨own, stands⟩ := exists_header links ascending node
  have ends : ∃ n ∈ rest ++ [start],
      decide (∃ header, pool.header n = .ok header ∧ EndsSearch units start n header) = true :=
    ⟨start, by simp, decide_eq_true ⟨own, stands, .inr rfl⟩⟩
  obtain ⟨last, earliest⟩ := Option.isSome_iff_exists.1 (List.find?_isSome.2 ends)
  obtain ⟨stops, passed, later, split, others⟩ := List.find?_eq_some_iff_append.1 earliest
  obtain ⟨header, found, stopped⟩ := of_decide_eq_true stops
  have goesOn : ∀ node ∈ passed, ∀ header, pool.header node = .ok header →
      ¬ EndsSearch units start node header := by
    intro node mem header found stopped
    have earlier := others node mem
    simp only [Bool.not_eq_true', decide_eq_false_iff_not] at earlier
    exact earlier ⟨header, found, stopped⟩
  obtain ⟨first, leads, walk⟩ := walk_of_lap links lap split goesOn found stopped
  exact ⟨first, rest, passed, last, later, header, leads, lap, split, walk, found, stopped⟩

/-- A search for more units than any node has only stops when it is back at its start. -/
theorem search_walk_whole {units : Nat} {rest later : List Nat} {header : Header}
    (links : pool.Links pool.freeList.sentinel.next blocks) (ascending : Ascending blocks)
    (lap : (start :: rest).IsRotated (nodes blocks))
    (split : rest ++ [start] = passed ++ last :: later) (found : pool.header last = .ok header)
    (stops : EndsSearch units start last header) (empty : pool.freeList.sentinel.size < units)
    (small : ∀ b ∈ blocks, b.size < units) : last = start ∧ later = [] := by
  have around : (passed ++ last :: later).IsRotated (nodes blocks) :=
    split ▸ (List.isRotated_concat _ _).trans lap
  have isNode := mem_nodes_iff.1 (around.mem_iff.1 (List.mem_append_right _ List.mem_cons_self))
  have short := Nat.not_le_of_lt (header_size_lt links isNode found empty small)
  obtain rfl : last = start := stops.resolve_left short
  refine ⟨rfl, ?_⟩
  rcases List.eq_nil_or_concat later with rfl | ⟨init, n, rfl⟩
  · rfl
  · -- Otherwise the start would be met once more behind itself.
    have again : rest ++ [last] = (passed ++ last :: init) ++ [n] := by simpa using split
    obtain ⟨rfl, -⟩ := List.append_inj' again rfl
    exact absurd (by simp) (List.nodup_cons.1 (nodup_of_lap links ascending lap)).1

end Pool

end NextFit
