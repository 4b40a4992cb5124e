import NextFit.Session.Basic

/-! # Sessions with an arena

Requests to a bare arena, without a heap. A copy of the arena can be put aside and taken back.
-/

namespace NextFit.Session

/-- What is asked of an arena. -/
inductive ArenaRequest where
  | extend (bytes : Nat)
  | store (address : Nat) (header : Header)
  | fill (address : Nat) (value : UInt8) (count : Nat)
  | overwrite (address : Nat) (bytes : List UInt8)
  /-- Memory goes to somebody else. -/
  | growForOthers (bytes : Nat)
  | inspect (address : Nat) (inspection : Inspection)
  /-- Put a copy aside. -/
  | save
  /-- Go back to the copy, if there is one. -/
  | restore
  deriving Repr, DecidableEq

/-- An arena and the copy that was put aside. -/
structure OfArena (A : Type) where
  arena : A
  saved : Option A := none

namespace OfArena

variable {A : Type} [ExposedArena A]

/-- One request: its answer, the events on the way, and the session behind it. -/
def step (session : OfArena A) (request : ArenaRequest) : Answer A × List Event × OfArena A :=
  match request with
  | .extend bytes => act .address (Arena.extend bytes)
  | .store address header => act (fun _ => .done) (Arena.store address header)
  | .fill address value count => act (fun _ => .done) (Arena.fill address value count)
  | .overwrite address bytes => act (fun _ => .done) (ExposedArena.writeBytes address bytes)
  | .growForOthers bytes => act .address (ExposedArena.growForOthers bytes)
  | .inspect address inspection => (inspection.answer session.arena address, [], session)
  | .save => (.done, [], { session with saved := some session.arena })
  | .restore => (.done, [], { session with arena := session.saved.getD session.arena })
where
  act {α : Type} (tell : α → Answer A) (op : Op A α) : Answer A × List Event × OfArena A :=
    let outcome := op.run session.arena
    (.ofResult tell outcome.result, outcome.events, { session with arena := outcome.state })

end OfArena

end NextFit.Session
