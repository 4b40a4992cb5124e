import NextFit.Proofs.Client.Observation
import NextFit.Proofs.Heap.Asks

/-! # Clients of heaps over related arenas

Where two arenas answer every call alike, clients of heaps over them have the same run. For a single
request it is enough that the arenas grow alike by what the layout of the heap asks for.
-/

namespace NextFit.Client

variable {A B : Type} [Arena A] [Arena B] {R R' : A → B → Prop} {Keeps : A → Ledger → Prop}
  {client : Client A} {other : Client B} {ledger : Ledger} {free : List FreeBlock}
  {request : Request}

/-- Clients of heaps over related arenas that hold the same. -/
structure Related (R : A → B → Prop) (client : Client A) (other : Client B) : Prop where
  heap : Heap.Related R client.heap other.heap
  live : client.live = other.live

theorem Related.allocate {size : Nat} (h : Related R client other)
    (agrees : (Heap.allocate size).Agrees (Heap.Related R') (Heap.allocate size) client.heap
      other.heap) :
    Related R' (client.step (.allocate size)) (other.step (.allocate size)) :=
  ⟨agrees.state, by simp only [Client.step, agrees.result, h.live]⟩

theorem Related.deallocate (alike : Arena.StoresAlike R) (h : Related R client other)
    (address : Nat) :
    Related R (client.step (.deallocate address)) (other.step (.deallocate address)) := by
  have agrees := h.heap.deallocate alike address
  exact ⟨agrees.state, by simp only [Client.step, agrees.result, h.live]⟩

theorem Related.fill (alike : Arena.StoresAlike R) (h : Related R client other) (address : Nat)
    (value : UInt8) (count : Nat) :
    Related R (client.step (.fill address value count)) (other.step (.fill address value count)) :=
  ⟨(h.heap.fill alike address value count).state, h.live⟩

theorem Related.step (arenas : Arena.Related R) (h : Related R client other) (request : Request) :
    Related R (client.step request) (other.step request) := by
  cases request with
  | allocate size => exact h.allocate (h.heap.allocate arenas size)
  | deallocate address => exact h.deallocate arenas.toStoresAlike address
  | fill address value count => exact h.fill arenas.toStoresAlike address value count

theorem Related.run (arenas : Arena.Related R) (h : Related R client other)
    (requests : List Request) : Related R (client.run requests) (other.run requests) := by
  induction requests generalizing client other with
  | nil => exact h
  | cons request rest ih => exact ih (h.step arenas request)

theorem Related.permits (units : Arena.unit A = Arena.unit B) (h : Related R client other)
    (request : Request) : client.Permits request ↔ other.Permits request := by
  cases request <;> simp only [Permits, h.live, units]

theorem Related.permitsAll (arenas : Arena.Related R) (h : Related R client other)
    (requests : List Request) : client.PermitsAll requests ↔ other.PermitsAll requests := by
  induction requests generalizing client other with
  | nil => exact .rfl
  | cons request rest ih =>
      exact and_congr (h.permits arenas.unit request) (ih (h.step arenas request))

theorem Related.observe_eq (alike : Arena.StoresAlike R)
    (h : Related R (client.step request) (other.step request))
    (answer : other.answer request = client.answer request) :
    other.observe request = client.observe request := by
  simp only [observe, answer, h.heap.freeBlocks alike, h.heap.stats alike]

/-- How many bytes the heap asks its arena for in the course of the request, if it asks at all. -/
def asksFor? (client : Client A) (free : List FreeBlock) : Request → Option Nat
  | .allocate size => (client.heap.layout free).request? (Arena.unit A) size
  | _ => none

/-- Over arenas that grow alike by what is asked for, a request shows the same. -/
theorem Sound.observe_related (laws : Arena.Laws Keeps) (h : client.Sound Keeps ledger free)
    (alike : Arena.StoresAlike R) (alike' : Arena.StoresAlike R') (related : Related R client other)
    (grow : Arena.GrowAlike R R' client.heap.arena (client.asksFor? free request)) :
    Related R' (client.step request) (other.step request) ∧
      other.observe request = client.observe request := by
  cases request with
  | allocate size =>
      have agrees := h.accounts.allocate_agrees laws alike alike' related.heap grow
      have stepped := related.allocate agrees
      exact ⟨stepped, stepped.observe_eq alike' (by simp only [answer, agrees.result])⟩
  | deallocate address =>
      cases grow
      have agrees := related.heap.deallocate alike address
      have stepped := related.deallocate alike address
      exact ⟨stepped, stepped.observe_eq alike (by simp only [answer, agrees.result])⟩
  | fill address value count =>
      cases grow
      have agrees := related.heap.fill alike address value count
      have stepped := related.fill alike address value count
      exact ⟨stepped, stepped.observe_eq alike (by simp only [answer, agrees.result])⟩

end NextFit.Client
