import NextFit.Pool.Basic

/-! # The chain of free blocks

`Links` relates an address to the blocks that its chain of links runs through, without counting
steps. The walk of `Pool.blocksFrom` finds exactly this chain: it only yields what the links say
(`links_of_blocksFrom`), and it yields all of it if and only if it may take one step more than there
are blocks (`blocksFrom_eq_of_links`).
-/

namespace NextFit.Pool

variable {A : Type} [Arena A] {pool : Pool A}

/-- The links from an address on run through these blocks and end at the sentinel. -/
inductive Links (pool : Pool A) : (start : Nat) → List FreeBlock → Prop where
  /-- The sentinel is reached. -/
  | stop : Links pool sentinelAddress []
  /-- A block whose header leads on. -/
  | block {address : Nat} {header : Header} {rest : List FreeBlock} :
      address ≠ sentinelAddress →
      Arena.load pool.arena address = .ok header →
      Links pool header.next rest →
      Links pool address ({ address, size := header.size } :: rest)

/-- An address has one chain at most. -/
theorem Links.unique {start : Nat} {blocks others : List FreeBlock} (h : pool.Links start blocks)
    (h' : pool.Links start others) : blocks = others := by
  induction h generalizing others with
  | stop =>
      cases h' with
      | stop => rfl
      | block apart => exact absurd rfl apart
  | block apart load _ ih =>
      cases h' with
      | stop => exact absurd rfl apart
      | block _ load' rest' =>
          cases load.symm.trans load'
          rw [ih rest']

/-- A chain is the same in each pool that has its headers. -/
theorem Links.congr {other : Pool A} {start : Nat} {blocks : List FreeBlock}
    (h : pool.Links start blocks)
    (same : ∀ b ∈ blocks, Arena.load other.arena b.address = Arena.load pool.arena b.address) :
    other.Links start blocks := by
  induction h with
  | stop => exact .stop
  | block apart load _ ih =>
      have found := (same _ List.mem_cons_self).trans load
      exact .block apart found (ih fun b mem => same b (List.mem_cons_of_mem _ mem))

/-- The walk yields a chain if it may take one step more than there are blocks, and else comes to no
    end. -/
theorem blocksFrom_eq_of_links {start : Nat} {blocks : List FreeBlock} (h : pool.Links start blocks)
    (steps : Nat) :
    pool.blocksFrom steps start =
      if blocks.length < steps then .ok blocks else .error .endlessList := by
  induction h generalizing steps with
  | stop =>
      cases steps with
      | zero => rfl
      | succ steps => rfl
  | @block address header rest apart load _ ih =>
      cases steps with
      | zero => rfl
      | succ steps =>
          simp only [blocksFrom, if_neg apart, header_of_ne apart, load, bind, Except.bind, ih,
            List.length_cons, Nat.add_lt_add_iff_right]
          by_cases enough : rest.length < steps
          · simp only [if_pos enough]
            rfl
          · simp only [if_neg enough]

theorem blocksFrom_of_links {start : Nat} {blocks : List FreeBlock} (h : pool.Links start blocks)
    {steps : Nat} (enough : blocks.length < steps) : pool.blocksFrom steps start = .ok blocks := by
  rw [blocksFrom_eq_of_links h, if_pos enough]

theorem links_of_blocksFrom {steps start : Nat} {blocks : List FreeBlock}
    (h : pool.blocksFrom steps start = .ok blocks) : pool.Links start blocks := by
  induction steps generalizing start blocks with
  | zero => cases h
  | succ steps ih =>
      simp only [blocksFrom] at h
      split at h
      case isTrue reached =>
        cases h
        exact reached ▸ .stop
      case isFalse apart =>
        rw [header_of_ne apart] at h
        cases load : Arena.load pool.arena start with
        | error fault => simp [load, bind, Except.bind] at h
        | ok header =>
            cases rest : pool.blocksFrom steps header.next with
            | error fault => simp [load, rest, bind, Except.bind] at h
            | ok behind =>
                simp only [load, rest, bind, Except.bind, pure, Except.pure, Except.ok.injEq] at h
                subst h
                exact .block apart load (ih rest)

end NextFit.Pool
