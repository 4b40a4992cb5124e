import NextFit.Arena

/-! # Answers

A session is a list of requests to an arena or to heaps, with one answer to each. What a client can
see in an arena is the same in all sessions and stands here.
-/

namespace NextFit.Session

/-- What a client looks at in an arena. -/
inductive Inspection where
  /-- Whether so many bytes from the address on were handed out. -/
  | contains (length : Nat)
  | header
  /-- So many bytes from the address on. -/
  | bytes (length : Nat)
  | arena
  deriving Repr, DecidableEq

/-- The answer to one request. -/
inductive Answer (A : Type) where
  /-- The request was carried out and has nothing to tell. -/
  | done
  | address (address : Nat)
  | truth (value : Bool)
  | header (header : Header)
  | bytes (bytes : List UInt8)
  | arena (arena : A)
  /-- The request names an address that nobody holds, so nothing was tried. -/
  | unheld
  | failed (failure : Failure)

namespace Answer

variable {A α : Type}

/-- The answer that tells a result. -/
def ofResult (tell : α → Answer A) : Except Failure α → Answer A
  | .ok value => tell value
  | .error failure => .failed failure

/-- The answer that tells what was read. -/
def ofRead (tell : α → Answer A) : Except Fault α → Answer A
  | .ok value => tell value
  | .error fault => .failed (.faulted fault)

end Answer

def Inspection.answer {A : Type} [ExposedArena A] (arena : A) (address : Nat) :
    Inspection → Answer A
  | .contains length => .truth (Arena.contains arena address length)
  | .header => .ofRead .header (Arena.load arena address)
  | .bytes length => .ofRead .bytes (ExposedArena.readBytes arena address length)
  | .arena => .arena arena

end NextFit.Session
