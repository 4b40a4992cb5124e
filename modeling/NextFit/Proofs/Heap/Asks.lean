import NextFit.Proofs.Arena.Recorded
import NextFit.Proofs.Heap.Lend

/-! # What a heap asks its arena for

To serve a request, a heap asks its arena for memory once at most, and its layout says for how much.
So it serves the request alike over two arenas that grow alike by just that much, whatever they would
reply to anything else. One of them may be the other with a record of what is asked of it, and that is
where `Heap.asked` reads off how often one allocation asks, and for how much.
-/

namespace NextFit

/-- How many bytes a search for units asks the arena for, if it asks at all. -/
def Layout.asksFor? (unit units : Nat) (layout : Layout) : Option Nat :=
  if layout.take? unit units = none then Size.mul? (layout.demand units) unit else none

/-- How many bytes an allocation of `size` bytes asks the arena for, if it asks at all. -/
def Layout.request? (unit size : Nat) (layout : Layout) : Option Nat :=
  if (size ⌈/⌉ unit + 1) * unit < Size.bound then layout.asksFor? unit (size ⌈/⌉ unit + 1) else none

namespace Heap

variable {A B : Type} [Arena A] [Arena B] {R R' : A → B → Prop} {Keeps : A → Ledger → Prop}
  {heap : Heap A} {other : Heap B} {ledger : Ledger} {free live : List FreeBlock} {units size : Nat}

/-- An extension that is tried after a search has failed. -/
theorem Accounts.extend_agrees (laws : Arena.Laws Keeps) (h : heap.Accounts Keeps ledger free live)
    (positive : 0 < units) (rounds rounds' : Nat) (alike : Arena.StoresAlike R)
    (alike' : Arena.StoresAlike R') (related : Related R heap other)
    (grow : Arena.GrowAlike R R' heap.arena
      (Size.mul? ((heap.layout free).demand units) (Arena.unit A))) :
    (Heap.extend units >>= fun _ => Heap.acquire units (rounds + 1)).Agrees (Related R')
      (Heap.extend units >>= fun _ => Heap.acquire units (rounds' + 1)) heap other := by
  cases product : Size.mul? ((heap.layout free).demand units) (Arena.unit A) with
  | none =>
      rw [product] at grow
      cases grow
      have large : Size.bound ≤ (heap.layout free).demand units * Arena.unit A := by
        rw [Size.mul?, Size.ofNat?] at product
        split at product
        · cases product
        · omega
      exact (related.extend_unasked alike product).bind_of_fails (extend_overlarge large)
  | some bytes =>
      rw [product] at grow
      obtain ⟨fits, rfl⟩ := Size.mul?_eq_some_iff.1 product
      have agrees := related.extend_asked alike' product (grow _ related.pool.arena)
      cases answer : Arena.reply heap.arena ((heap.layout free).demand units * Arena.unit A) with
      | error failure =>
          obtain ⟨arena', extended, -, -⟩ := h.extend_declined laws fits answer
          exact agrees.bind_of_fails extended
      | ok base =>
          obtain ⟨grown, ledger₁, extended, reached⟩ := h.extend laws positive fits answer
          refine agrees.bind_of_yields extended fun other related => ?_
          obtain ⟨block, rest, second⟩ := Layout.exists_take?_grow (Arena.unit A) units base
            (heap.layout free)
          obtain ⟨heap', ledger', retaken, -⟩ := reached.accounts.take_some laws positive
            (reached.layout.symm ▸ second)
          have agrees := related.inPool (related.pool.take alike' units)
          exact agrees.bind_of_yields retaken fun _ related => .pure related _

/-- Two searches settle how it ends, so it does not matter how many more there might be. -/
theorem Accounts.acquire_agrees (laws : Arena.Laws Keeps) (h : heap.Accounts Keeps ledger free live)
    (positive : 0 < units) (rounds rounds' : Nat) (alike : Arena.StoresAlike R)
    (alike' : Arena.StoresAlike R') (related : Related R heap other)
    (grow : Arena.GrowAlike R R' heap.arena ((heap.layout free).asksFor? (Arena.unit A) units)) :
    (Heap.acquire units (rounds + 2)).Agrees (Related R') (Heap.acquire units (rounds' + 2)) heap
      other := by
  have agrees := related.inPool (related.pool.take alike units)
  cases first : (heap.layout free).take? (Arena.unit A) units with
  | some found =>
      obtain ⟨block, rest⟩ := found
      obtain ⟨heap', ledger', taken, -⟩ := h.take_some laws positive first
      rw [Layout.asksFor?, if_neg (by simp [first])] at grow
      cases grow
      exact agrees.bind_of_yields taken fun _ related => .pure related _
  | none =>
      rw [Layout.asksFor?, if_pos first] at grow
      obtain ⟨taken, accounts⟩ := h.take_none laws positive first
      exact agrees.bind_of_yields taken fun other related =>
        accounts.extend_agrees laws positive rounds rounds' alike alike' related grow

/-- Two searches are enough. -/
theorem Accounts.acquire_eq (laws : Arena.Laws Keeps) (h : heap.Accounts Keeps ledger free live)
    (positive : 0 < units) (rounds : Nat) :
    Heap.acquire units (rounds + 2) heap = Heap.acquire units 2 heap := by
  have related : Related Eq heap heap := ⟨⟨rfl, rfl⟩, rfl, rfl, rfl⟩
  have agrees := h.acquire_agrees laws positive rounds 0 Arena.storesAlike_eq Arena.storesAlike_eq
    related (Arena.growAlike_eq _ _)
  exact agrees.eq agrees.state.eq

/-- An allocation ends alike over arenas that grow alike by what it asks for. -/
theorem Accounts.allocate_agrees (laws : Arena.Laws Keeps) (h : heap.Accounts Keeps ledger free live)
    (alike : Arena.StoresAlike R) (alike' : Arena.StoresAlike R') (related : Related R heap other)
    (grow : Arena.GrowAlike R R' heap.arena ((heap.layout free).request? (Arena.unit A) size)) :
    (Heap.allocate size).Agrees (Related R') (Heap.allocate size) heap other := by
  obtain ⟨wanted, counted, chosen⟩ := unitsFor_filter laws.unit_pos size
  obtain ⟨rounds, bound⟩ : ∃ rounds, Size.bound = rounds + 2 := ⟨Size.bound - 2, rfl⟩
  unfold Heap.allocate
  rw [← alike.unit]
  refine (Op.Agrees.ofExcept related _).bind_of_yields (.lift counted) fun other related => ?_
  split at chosen
  case isFalse large =>
    rw [Layout.request?, if_neg large] at grow
    cases grow
    simp only [chosen]
    exact .fail related _
  case isTrue fits =>
    rw [Layout.request?, if_pos fits] at grow
    simp only [chosen, bound]
    refine (Op.Agrees.report related _).bind_of_yields (.report _) fun other related => ?_
    apply Op.Agrees.bind
      (h.acquire_agrees laws (Nat.succ_pos _) rounds rounds alike alike' related grow)
    exact fun _ _ _ related => .ofExcept related _

/-- How many bytes an allocation asks the arena for, once for each extension that it tries. -/
def asked (size : Nat) (heap : Heap A) : List Nat :=
  (allocate size (heap.withArena ({ arena := heap.arena } : Recorded A))).state.arena.record.map
    (·.bytes)

theorem Accounts.asked_eq (laws : Arena.Laws Keeps) (h : heap.Accounts Keeps ledger free live)
    (size : Nat) : heap.asked size = ((heap.layout free).request? (Arena.unit A) size).toList := by
  have related : Related (Recorded.Records (· = [])) heap
      (heap.withArena ({ arena := heap.arena } : Recorded A)) := ⟨⟨⟨rfl, rfl⟩, rfl⟩, rfl, rfl, rfl⟩
  have agrees := h.allocate_agrees laws (Recorded.storesAlike _) (Recorded.storesAlike _) related
    (Recorded.growAlike heap.arena [] ((heap.layout free).request? (Arena.unit A) size))
  obtain ⟨-, written⟩ := agrees.state.pool.arena
  rw [List.nil_append] at written
  exact (congrArg (List.map (·.bytes)) written).trans (Arena.bytes_answers _ _)

end Heap

end NextFit
