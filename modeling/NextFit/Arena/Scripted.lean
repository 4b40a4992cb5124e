import Std.Data.TreeMap.Lemmas
import NextFit.Arena
import NextFit.Region

/-! # Scripted arenas

A scripted arena decides nothing itself: a list says in advance how each extension ends. Headers are
kept beside the memory, one for each address, with fields of any size, and there are no bytes. Such
an arena shows what a heap does with memory that comes in any order and with any gaps.
-/

namespace NextFit

/-- How one extension ends. -/
inductive Reply where
  /-- The new memory starts here. -/
  | base (address : Nat)
  /-- There is no more memory. -/
  | exhausted
  /-- The request is called too large. -/
  | oversized
  deriving Repr, DecidableEq

/-- An arena whose header unit is `unit` and whose extensions end as the script says. -/
structure ScriptedArena (unit : Nat) where
  /-- How the extensions to come end. -/
  script : List Reply
  /-- The memory handed out so far, in order. -/
  regions : List Region := []
  headers : Std.TreeMap Nat Header := ∅

namespace ScriptedArena

variable {unit : Nat}

/-- Do what the script says; at its end there is no more memory. -/
def extend (bytes : Nat) : Op (ScriptedArena unit) Nat := do
  let arena ← Op.state
  Op.update fun arena => { arena with script := arena.script.tail }
  match arena.script with
  | .base address :: _ =>
      let region : Region := { start := address, stop := address + bytes }
      Op.update fun arena => { arena with regions := arena.regions ++ [region] }
      return address
  | .oversized :: _ => Op.refuse (.sizeOverflow bytes)
  | .exhausted :: _ | [] => Op.refuse (.outOfMemory bytes)

/-- Whether one region holds all the bytes from an address on. -/
def contains (arena : ScriptedArena unit) (address length : Nat) : Bool :=
  arena.regions.any (·.contains address length)

def load (arena : ScriptedArena unit) (address : Nat) : Except Fault Header :=
  match arena.headers[address]? with
  | some header => .ok header
  | none => .error (.missingHeader address)

def store (address : Nat) (header : Header) : Op (ScriptedArena unit) Unit :=
  Op.update fun arena => { arena with headers := arena.headers.insert address header }

instance : ExposedArena (ScriptedArena unit) where
  unit
  extend
  contains
  load
  store
  fill _ _ _ := pure ()
  readBytes _ _ length := .ok (List.replicate length 0)
  writeBytes _ _ := pure ()
  growForOthers bytes := Op.refuse (.outOfMemory bytes)

/-- A stored header is what its address holds; other addresses keep what they had. -/
theorem load_store (arena : ScriptedArena unit) (address query : Nat) (header : Header) :
    (store address header arena).state.load query =
      if address = query then .ok header else arena.load query := by
  by_cases same : address = query <;>
    simp [store, Op.update, load, Std.TreeMap.getElem?_insert, same]

end ScriptedArena

end NextFit
