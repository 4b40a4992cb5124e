import NextFit.Session.Basic
import NextFit.Pool.Basic

/-! # Renamed addresses

What an allocator tells about, with every address replaced by another one. Sizes and counts stay as
they are.
-/

namespace NextFit

/-- The fault with its addresses renamed. -/
def Fault.mapAddresses (rename : Nat → Nat) : Fault → Fault
  | .outsideSegment length address base brk =>
      .outsideSegment length (rename address) (rename base) (rename brk)
  | .missingHeader address => .missingHeader (rename address)
  | .foreignAddress address => .foreignAddress (rename address)
  | .doubleFree block => .doubleFree (rename block)
  | fault => fault

def Failure.mapAddresses (rename : Nat → Nat) : Failure → Failure
  | .faulted fault => .faulted (fault.mapAddresses rename)
  | failure => failure

def Event.mapAddresses (rename : Nat → Nat) : Event → Event
  | .exactFit units block => .exactFit units (rename block)
  | .split block left units tail => .split (rename block) left units (rename tail)
  | .absorbedSuccessor block successor => .absorbedSuccessor (rename block) (rename successor)
  | .absorbedByPredecessor predecessor block =>
      .absorbedByPredecessor (rename predecessor) (rename block)
  | .deallocating address => .deallocating (rename address)
  | .extended units bytes base => .extended units bytes (rename base)
  | .segmentGrew brk newBrk => .segmentGrew (rename brk) (rename newBrk)
  | .breakMoved bytes base padding => .breakMoved bytes (rename base) padding
  | event => event

def Header.mapAddresses (rename : Nat → Nat) (header : Header) : Header :=
  { header with next := rename header.next }

def FreeBlock.mapAddresses (rename : Nat → Nat) (block : FreeBlock) : FreeBlock :=
  { block with address := rename block.address }

/-- The answer with its addresses renamed. An arena in it stays as it is. -/
def Session.Answer.mapAddresses {A : Type} (rename : Nat → Nat) : Answer A → Answer A
  | .address a => .address (rename a)
  | .header h => .header (h.mapAddresses rename)
  | .failed f => .failed (f.mapAddresses rename)
  | other => other

@[simp] theorem Fault.mapAddresses_id (fault : Fault) : fault.mapAddresses id = fault := by
  cases fault <;> rfl

@[simp] theorem Failure.mapAddresses_id (failure : Failure) : failure.mapAddresses id = failure := by
  cases failure <;> simp [mapAddresses]

@[simp] theorem Event.mapAddresses_id (event : Event) : event.mapAddresses id = event := by
  cases event <;> rfl

end NextFit
