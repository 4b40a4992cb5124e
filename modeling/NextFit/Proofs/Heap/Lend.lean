import Mathlib.Algebra.Order.Floor.Div
import Mathlib.Data.List.Pairwise
import Mathlib.GroupTheory.GroupAction.Ring
import NextFit.Proofs.Heap.Accounts
import NextFit.Proofs.Rounding

/-! # Lending blocks and taking them back

What the requests of a client do to the accounts of a heap. An allocation lends a block out, or fails
and leaves the free list and the live blocks as they were. A block that was lent is always taken back.
One extension is enough to serve a request, so a heap never searches more than twice.
-/

namespace NextFit

namespace FreeBlock

variable {unit : Nat} {b c : FreeBlock} {blocks : List FreeBlock}

theorem exists_le_pushFront (mem : c ∈ b :: blocks) :
    ∃ d ∈ pushFront unit b blocks, c.size ≤ d.size := by
  cases blocks with
  | nil => exact ⟨c, mem, Nat.le_refl _⟩
  | cons first rest =>
      simp only [pushFront]
      split
      · simp only [List.mem_cons] at mem
        rcases mem with rfl | rfl | later
        · exact ⟨_, List.mem_cons_self, Nat.le_add_right _ _⟩
        · exact ⟨_, List.mem_cons_self, Nat.le_add_left _ _⟩
        · exact ⟨c, List.mem_cons_of_mem _ later, Nat.le_refl _⟩
      · exact ⟨c, mem, Nat.le_refl _⟩

/-- A released block is free, on its own or as part of a larger one. -/
theorem exists_le_release (unit : Nat) (b : FreeBlock) (blocks : List FreeBlock) :
    ∃ c ∈ release unit b blocks, b.size ≤ c.size := by
  induction blocks with
  | nil => exact ⟨b, List.mem_cons_self, Nat.le_refl _⟩
  | cons first rest ih =>
      simp only [release]
      split
      · exact exists_le_pushFront List.mem_cons_self
      · obtain ⟨c, mem, larger⟩ := ih
        obtain ⟨d, mem, largest⟩ := exists_le_pushFront (List.mem_cons_of_mem first mem)
        exact ⟨d, mem, Nat.le_trans larger largest⟩

end FreeBlock

/-- New memory alone would be enough, so a search that follows an extension finds a block. -/
theorem Layout.exists_take?_grow (unit units base : Nat) (layout : Layout) :
    ∃ block rest, (layout.grow unit { address := base, size := layout.demand units }).take? unit
      units = some (block, rest) := by
  cases found : (layout.grow unit { address := base, size := layout.demand units }).take? unit
      units with
  | some fit => exact ⟨fit.1, fit.2, rfl⟩
  | none =>
      obtain ⟨c, mem, larger⟩ := FreeBlock.exists_le_release unit
        { address := base, size := layout.demand units } layout.free
      have short := take?_eq_none_iff.1 found c mem
      have enough : units ≤ layout.demand units := Nat.le_max_left _ _
      exact absurd (Nat.le_trans enough larger) (Nat.not_le.2 short)

namespace Heap

open FreeBlock

variable {A : Type} [Arena A] {Keeps : A → Ledger → Prop} {heap : Heap A} {ledger : Ledger}
  {free live : List FreeBlock} {units : Nat}

theorem Accounts.take_none (laws : Arena.Laws Keeps) (h : heap.Accounts Keeps ledger free live)
    (positive : 0 < units) (none : (heap.layout free).take? (Arena.unit A) units = none) :
    (inPool (Pool.take units)).Yields heap (.ok Option.none) heap.primed ∧
      heap.primed.Accounts Keeps ledger free live := by
  refine ⟨.on (h.holds.take_none laws positive ?_), { h with holds := h.holds.withCursor h.holds.node }⟩
  simpa [Layout.take?, layout] using none

theorem Accounts.take_some {block : Nat} {rest : Layout} (laws : Arena.Laws Keeps)
    (h : heap.Accounts Keeps ledger free live) (positive : 0 < units)
    (some : (heap.layout free).take? (Arena.unit A) units = some (block, rest)) :
    ∃ heap' ledger', (inPool (Pool.take units)).Yields heap (.ok (Option.some block)) heap' ∧
      Reaches Keeps ledger live heap' ledger' rest ({ address := block, size := units } :: live) [] := by
  obtain ⟨b, found, same⟩ := Option.map_eq_some_iff.1 some
  cases same
  obtain ⟨mem, fits⟩ := nextFit?_spec found
  obtain ⟨pool', ledger', taken, holds, cursor, frame, header⟩ := h.holds.take_some laws positive found
  have tiled : Tile (Arena.unit A) (b.tail (Arena.unit A) units :: carve units b.address free) free :=
    tile_carve h.holds.separated.ascending mem fits
  have spares : Ledger.Spares (Arena.unit A) live ledger ledger' := by
    apply Ledger.Spares.of_frame frame
    intro c mem d inFree
    exact ((List.pairwise_append.1 (h.pairwise_disjoint laws)).2.2 d inFree c mem).symm
  refine ⟨{ heap with pool := pool' }, ledger', .on taken, ?_⟩
  constructor
  case accounts =>
    constructor
    case holds => exact holds
    case tile =>
      rw [frame.regions]
      exact (Tile.of_perm List.perm_middle).trans ((tiled.append live).trans h.tile)
    case nonempty =>
      intro c mem
      rcases List.mem_cons.1 mem with rfl | mem
      · exact positive
      · exact h.nonempty c mem
    case header =>
      intro c mem
      rcases List.mem_cons.1 mem with rfl | mem
      · exact header
      · exact h.header_of_spares spares mem mem
    case arenaUnits =>
      rw [frame.units_eq]
      exact h.arenaUnits
    case extensions =>
      rw [frame.regions]
      exact h.extensions
  case layout => simp only [Heap.layout, Pool.start, cursor, Option.getD_some]
  case regions => rw [frame.regions, List.append_nil]
  case spares => exact spares
  case outside => exact .of_frame frame h.holds.owned

/-- What a request leaves that came to nothing. -/
structure Fails (Keeps : A → Ledger → Prop) (heap : Heap A) (ledger : Ledger)
    (free live : List FreeBlock) (heap' : Heap A) : Prop where
  accounts : heap'.Accounts Keeps ledger free live
  layout : heap'.layout free = heap.layout free
  idle : heap' = heap ∨
    ∃ arena', Arena.Declined heap.arena arena' ∧ heap' = heap.primed.withArena arena'

theorem Accounts.acquire (laws : Arena.Laws Keeps) (h : heap.Accounts Keeps ledger free live)
    (positive : 0 < units) (rounds : Nat) :
    (∃ failure heap',
      (heap.layout free).Acquires (Arena.unit A) (Arena.reply heap.arena) units (.error failure)
        (heap.layout free) [] ∧
      (acquire units (rounds + 2)).Yields heap (.error failure) heap' ∧
      Fails Keeps heap ledger free live heap') ∨
    ∃ heap' ledger' block rest granted,
      (heap.layout free).Acquires (Arena.unit A) (Arena.reply heap.arena) units (.ok block) rest
        granted ∧
      (acquire units (rounds + 2)).Yields heap (.ok block) heap' ∧
      Reaches Keeps ledger live heap' ledger' rest ({ address := block, size := units } :: live)
        granted := by
  cases first : (heap.layout free).take? (Arena.unit A) units with
  | some found =>
      obtain ⟨block, rest⟩ := found
      obtain ⟨heap', ledger', taken, reached⟩ := h.take_some laws positive first
      exact .inr ⟨heap', ledger', block, rest, [], .found first, .bind taken (.pure _), reached⟩
  | none =>
      obtain ⟨taken, accounts⟩ := h.take_none laws positive first
      cases Nat.lt_or_ge ((heap.layout free).demand units * Arena.unit A) Size.bound with
      | inr large =>
          refine .inl ⟨_, heap.primed, .overlarge first large,
            .bind taken (.bind_error (extend_overlarge large)), accounts, rfl, .inr ?_⟩
          exact ⟨heap.arena, .inl rfl, rfl⟩
      | inl fits =>
          cases answer : Arena.reply heap.arena ((heap.layout free).demand units * Arena.unit A) with
          | error failure =>
              obtain ⟨arena', extended, accounts', declined⟩ := accounts.extend_declined laws fits answer
              exact .inl ⟨failure, _, .declined first fits answer,
                .bind taken (.bind_error extended), accounts', rfl, .inr ⟨arena', declined, rfl⟩⟩
          | ok base =>
              obtain ⟨grown, ledger₁, extended, reached₁⟩ := accounts.extend laws positive fits answer
              obtain ⟨block, rest, second⟩ := Layout.exists_take?_grow (Arena.unit A) units base
                (heap.layout free)
              have layout := reached₁.layout
              obtain ⟨heap', ledger', retaken, reached⟩ := reached₁.accounts.take_some laws positive
                (layout.symm ▸ second)
              exact .inr ⟨heap', ledger', block, rest, _, .extended first fits answer second,
                .bind taken (.bind extended (.bind retaken (.pure _))), reached₁.trans reached⟩

theorem Accounts.allocate (laws : Arena.Laws Keeps) (h : heap.Accounts Keeps ledger free live)
    (size : Nat) :
    (∃ failure heap',
      (heap.layout free).Allocates (Arena.unit A) (Arena.reply heap.arena) size (.error failure)
        (heap.layout free) [] ∧
      (allocate size).Yields heap (.error failure) heap' ∧
      Fails Keeps heap ledger free live heap') ∨
    ∃ heap' ledger' block rest granted,
      (heap.layout free).Allocates (Arena.unit A) (Arena.reply heap.arena) size
        (.ok (block + Arena.unit A)) rest granted ∧
      (allocate size).Yields heap (.ok (block + Arena.unit A)) heap' ∧
      Reaches Keeps ledger live heap' ledger' rest
        ({ address := block, size := size ⌈/⌉ Arena.unit A + 1 } :: live) granted := by
  obtain ⟨wanted, counted, chosen⟩ := unitsFor_filter laws.unit_pos size
  obtain ⟨rounds, bound⟩ : ∃ rounds, Size.bound = rounds + 2 := ⟨Size.bound - 2, rfl⟩
  split at chosen
  case isFalse large =>
    refine .inl ⟨_, heap, .oversized (Nat.not_lt.1 large), .bind (.lift counted) ?_, h, rfl, .inl rfl⟩
    simp only [chosen]
    exact .refuse _
  case isTrue fits =>
    rcases h.acquire laws (Nat.succ_pos _) rounds with
      ⟨failure, heap', acquires, refused, fails⟩ |
      ⟨heap', ledger', block, rest, granted, acquires, acquired, reached⟩
    · refine .inl ⟨failure, heap', .served fits acquires, .bind (.lift counted) ?_, fails⟩
      simp only [chosen, bound]
      exact .bind (.report _) (.bind_error refused)
    · have accounts := reached.accounts
      have cell : block ∈ ledger'.cells (Arena.unit A) :=
        accounts.cells_subset (List.mem_append_right _ List.mem_cons_self)
          (mem_cells.2 ⟨0, Nat.succ_pos _, by simp⟩)
      have inside := accounts.holds.wellFormed.cell_le laws.unit_pos cell
      have sum := Size.add_of_lt (Nat.lt_of_le_of_lt inside (by decide))
      refine .inr ⟨heap', ledger', block, rest, granted, .served fits acquires,
        .bind (.lift counted) ?_, reached⟩
      simp only [chosen, bound]
      exact .bind (.report _) (.bind acquired (.lift sum))

/-- A live block is always taken back. -/
theorem Accounts.deallocate {b : FreeBlock} (laws : Arena.Laws Keeps)
    (h : heap.Accounts Keeps ledger free (b :: live)) :
    ∃ heap' ledger', (deallocate (b.address + Arena.unit A)).Yields heap (.ok ()) heap' ∧
      Reaches Keeps ledger live heap' ledger' ((heap.layout free).release (Arena.unit A) b) live [] := by
  obtain ⟨heap', ledger', inserted, reached⟩ := h.insert laws
  have cell := h.cells_subset (List.mem_append_right _ List.mem_cons_self)
    (address_mem_cells (h.nonempty b List.mem_cons_self))
  obtain ⟨region, granted, inside, -⟩ := h.holds.wellFormed.exists_region laws.unit_pos cell
  have difference : Size.sub (b.address + Arena.unit A) (Arena.unit A) = .ok b.address := by
    rw [Size.sub_of_le (Nat.le_add_left _ _), Nat.add_sub_cancel]
  refine ⟨heap', ledger', .bind (.lift difference) (.bind .state ?_), reached⟩
  refine .bind (.require ?_) (.bind (.report _) inserted)
  exact laws.contains h.holds.keeps granted inside

/-- Bytes behind a live header may change. -/
theorem Accounts.fill {b : FreeBlock} {address count : Nat} (laws : Arena.Laws Keeps)
    (h : heap.Accounts Keeps ledger free (b :: live)) (value : UInt8)
    (low : b.address + Arena.unit A ≤ address) (high : address + count ≤ b.stop (Arena.unit A)) :
    ∃ result heap' ledger', (fill address value count).Yields heap result heap' ∧
      Reaches Keeps ledger live heap' ledger' (heap.layout free) (b :: live) [] := by
  by_cases inside : Arena.contains heap.arena address count = true
  · have disjoint := h.pairwise_disjoint laws
    rw [List.pairwise_middle FreeBlock.Disjoint.symm] at disjoint
    have spares : Ledger.Spares (Arena.unit A) (free ++ live) ledger
        (ledger.overwrite (Arena.unit A) address count) := by
      intro c other x first last
      apply Ledger.header?_overwrite_of_apart
      have apart := (List.pairwise_cons.1 disjoint).1 c other
      simp only [FreeBlock.Disjoint] at apart
      omega
    refine ⟨_, _, ledger.overwrite (Arena.unit A) address count,
      .bind .state (.bind (.require inside) (.on (.on (Op.yields_run _ _)))), ?_⟩
    constructor
    case accounts =>
      have kept : ∀ c ∈ free, (ledger.overwrite (Arena.unit A) address count).header? c.address =
          ledger.header? c.address := by
        intro c mem
        have head : c.address ∈ c.cells (Arena.unit A) :=
          address_mem_cells (h.holds.nonempty c mem)
        exact spares c (List.mem_append_left _ mem) c.address (Nat.le_refl _) (cell_bounds head).2
      exact {
        h with
        holds := h.holds.congr rfl (laws.fill h.holds.keeps inside) kept
        header := fun c mem => by
          rcases List.mem_cons.1 mem with rfl | mem
          · rw [Ledger.header?_overwrite_of_apart (.inl low)]
            exact h.header c List.mem_cons_self
          · exact h.header_of_spares spares (List.mem_append_right _ mem)
              (List.mem_cons_of_mem _ mem) }
    case layout => rfl
    case regions => exact (List.append_nil _).symm
    case spares => exact spares.mono (List.subset_append_right _ _)
    case outside =>
      exact .overwrite laws.unit_pos (h.nonempty b List.mem_cons_self)
        (h.cells_subset (List.mem_append_right free List.mem_cons_self)) (by omega) high
  · refine ⟨_, heap, ledger, .bind .state (.bind_error (.require_not inside)), h, rfl, ?_, .refl _ _ _,
      .refl _ _⟩
    exact (List.append_nil _).symm

end Heap

theorem Heap.Accounts.fill_ok {A : Type} [Arena A] {Keeps : A → Ledger → Prop} {heap : Heap A}
    {ledger : Ledger} {free live : List FreeBlock} {b : FreeBlock} {address count : Nat}
    (fillable : Arena.Fillable Keeps) (h : heap.Accounts Keeps ledger free live) (mem : b ∈ live)
    (value : UInt8) (low : b.address ≤ address) (high : address + count ≤ b.stop (Arena.unit A)) :
    (Heap.fill address value count heap).result = .ok () := by
  obtain ⟨inside, filled⟩ := fillable value h.holds.keeps h.holds.wellFormed (h.nonempty b mem)
    (h.cells_subset (List.mem_append_right _ mem)) low high
  have yields : (Heap.fill address value count).Yields heap (.ok ()) _ :=
    .bind .state (.bind (.require inside) (.on (.on ⟨filled, rfl⟩)))
  exact yields.1

end NextFit
