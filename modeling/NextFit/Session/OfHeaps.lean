import NextFit.HeapGroup
import NextFit.Session.Basic

/-! # Sessions with heaps

Clients keep the addresses they got under names, and use them in later requests to any heap of a
group. A name keeps its address when the address is given back, and loses it when an allocation for
that name fails.
-/

namespace NextFit.Session

/-- Where an address comes from. -/
inductive Anchor where
  /-- The address kept under a name. -/
  | named (name : String)
  | fixed (address : Nat)
  deriving Repr, DecidableEq

/-- An address at a distance from an anchor. -/
structure Place where
  anchor : Anchor
  distance : Int := 0
  deriving Repr, DecidableEq

/-- What is asked of a heap. -/
inductive HeapRequest where
  /-- Allocate, and keep the address under a name. -/
  | allocate (size : Nat) (name : String)
  /-- The same, or the end of the process. -/
  | allocateOrAbort (size : Nat) (name : String)
  | deallocate (place : Place)
  | fill (place : Place) (value : UInt8) (count : Nat)
  /-- Look at the arena under the heap. -/
  | inspect (place : Place) (inspection : Inspection)
  /-- Write to the arena behind the heap's back. -/
  | overwrite (place : Place) (bytes : List UInt8)
  | growForOthers (bytes : Nat)
  deriving Repr, DecidableEq

/-- The addresses that clients hold, under their names. -/
abbrev Holdings := List (String × Nat)

namespace Holdings

def drop (holdings : Holdings) (name : String) : Holdings :=
  holdings.filter (·.1 ≠ name)

def keep (holdings : Holdings) (name : String) (address : Nat) : Holdings :=
  (name, address) :: drop holdings name

/-- Where a place is. `none` if its name holds no address. -/
def locate? (holdings : Holdings) (place : Place) : Option Nat :=
  let anchor :=
    match place.anchor with
    | .named name => holdings.lookup name
    | .fixed address => some address
  anchor.map (Size.offset · place.distance)

end Holdings

/-- A group of heaps and what their clients hold. -/
structure OfHeaps (S P : Type) where
  group : HeapGroup S P
  holdings : Holdings := []

/-- What one request led to. -/
structure HeapReport (A : Type) where
  answer : Answer A
  events : List Event
  /-- The heap that was asked, behind the request. -/
  heap : Heap A

namespace OfHeaps

variable {A S P : Type} [ExposedArena A]

/-- What a request does to the heap it goes to, with the answer that tells about it. A request at a
    name that holds no address does nothing. -/
def act (holdings : Holdings) (heap : Heap A) : HeapRequest → Outcome (Heap A) (Answer A)
  | .allocate size _ => (Answer.address <$> Heap.allocate size).run heap
  | .allocateOrAbort size _ => (Answer.address <$> Heap.allocateOrAbort size).run heap
  | .deallocate place => at? place fun address => (fun _ => .done) <$> Heap.deallocate address
  | .fill place value count =>
      at? place fun address => (fun _ => .done) <$> Heap.fill address value count
  | .inspect place inspection =>
      at? place fun address => do
        let heap ← Op.state
        return inspection.answer heap.arena address
  | .overwrite place bytes =>
      at? place fun address =>
        (fun _ => .done) <$> Heap.inPool (Pool.inArena (ExposedArena.writeBytes address bytes))
  | .growForOthers bytes =>
      (Answer.address <$> Heap.inPool (Pool.inArena (ExposedArena.growForOthers bytes))).run heap
where
  at? (place : Place) (op : Nat → Op (Heap A) (Answer A)) : Outcome (Heap A) (Answer A) :=
    match holdings.locate? place with
    | some address => (op address).run heap
    | none => { result := .ok .unheld, state := heap }

/-- What clients hold behind a request that got this answer. -/
def settle (holdings : Holdings) : HeapRequest → Answer A → Holdings
  | .allocate _ name, .address address | .allocateOrAbort _ name, .address address =>
      holdings.keep name address
  | .allocate _ name, _ | .allocateOrAbort _ name, _ => holdings.drop name
  | _, _ => holdings

/-- One request to the heap at `index`. `none` if there is no such heap. -/
def step? (sharing : Sharing A S P) (session : OfHeaps S P) (index : Nat) (request : HeapRequest) :
    Option (HeapReport A × OfHeaps S P) := do
  let heap ← session.group.heap? sharing index
  let outcome := act session.holdings heap request
  let answer := Answer.ofResult id outcome.result
  return ({ answer, events := outcome.events, heap := outcome.state },
    { group := session.group.replace sharing index outcome.state
      holdings := settle session.holdings request answer })

end OfHeaps

end NextFit.Session
