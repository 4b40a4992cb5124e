import NextFit.Failure

/-! # Events

What the allocator reports while it works. An event is data; the line that a log shows for it is
`Event.line`. Events never influence what the allocator does.
-/

namespace NextFit

/-- How much an event matters. -/
inductive Level where
  | error
  | debug
  | trace
  deriving Repr, DecidableEq

def Level.label : Level → String
  | .error => "ERROR"
  | .debug => "DEBUG"
  | .trace => "TRACE"

/-- One thing that happened. Sizes are in header units unless they are called bytes. -/
inductive Event where
  /-- The free list was used for the first time. -/
  | sentinelCreated
  /-- A free block had exactly the units asked for. -/
  | exactFit (units block : Nat)
  /-- A larger free block gave up its tail. -/
  | split (block left units tail : Nat)
  /-- A whole lap found no block that is large enough. -/
  | noFit (units : Nat)
  /-- A released block took in the free block that starts at its end. -/
  | absorbedSuccessor (block successor : Nat)
  /-- A released block was taken in by the free block that ends at its start. -/
  | absorbedByPredecessor (predecessor block : Nat)
  | allocating (size units : Nat)
  | deallocating (address : Nat)
  /-- The arena granted new memory to the heap. -/
  | extended (units bytes base : Nat)
  /-- The arena did not grow. -/
  | extensionFailed (units : Nat) (reason : Refusal)
  /-- A refused request ends the process. -/
  | aborting (size : Nat) (reason : Refusal)
  | segmentGrew (brk newBrk : Nat)
  | breakMoved (bytes base padding : Nat)
  deriving Repr, DecidableEq

namespace Event

/-- The level at which the event is reported. -/
def level : Event → Level
  | .aborting .. => .error
  | .extended .. | .extensionFailed .. | .segmentGrew .. | .breakMoved .. => .debug
  | .sentinelCreated | .exactFit .. | .split .. | .noFit .. | .absorbedSuccessor ..
  | .absorbedByPredecessor .. | .allocating .. | .deallocating .. => .trace

def text : Event → String
  | .sentinelCreated => "free list: creating sentinel"
  | .exactFit units block => s!"free list: exact fit of {units} units at {Hex.marked block}"
  | .split block left units tail =>
      s!"free list: split {Hex.marked block}, {left} units left, " ++
        s!"carved {units} units at {Hex.marked tail}"
  | .noFit units => s!"free list: no block of {units} units"
  | .absorbedSuccessor block successor =>
      s!"free list: {Hex.marked block} absorbs successor {Hex.marked successor}"
  | .absorbedByPredecessor predecessor block =>
      s!"free list: predecessor {Hex.marked predecessor} absorbs {Hex.marked block}"
  | .allocating size units => s!"allocate({size}) -> {units} units"
  | .deallocating address => s!"deallocate({Hex.marked address})"
  | .extended units bytes base =>
      s!"arena extended by {units} units ({bytes} bytes) at {Hex.marked base}"
  | .extensionFailed units reason => s!"arena extension of {units} units failed: {reason.message}"
  | .aborting size reason => s!"allocate({size}) failed: {reason.message}"
  | .segmentGrew brk newBrk => s!"sim arena: brk {Hex.marked brk} -> {Hex.marked newBrk}"
  | .breakMoved bytes base padding =>
      s!"sbrk arena: extended by {bytes} bytes at {Hex.marked base} ({padding} padding)"

def line (event : Event) : String :=
  s!"{event.level.label} {event.text}"

example :
    (exactFit 2 0x10040000).line = "TRACE free list: exact fit of 2 units at 0x10040000" :=
  rfl

end Event

/-- The sentence that tells a person how the operation ended. -/
def Failure.message : Failure → String
  | .refused reason => reason.message
  | .faulted fault => fault.message
  | .aborted size reason => (Event.aborting size reason).line

end NextFit
