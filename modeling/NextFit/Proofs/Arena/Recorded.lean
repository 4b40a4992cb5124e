import NextFit.Proofs.Agreement
import NextFit.Proofs.Ledger

/-! # Recording how an arena grows

A recorded arena keeps a list of its extensions: how many bytes were asked for, and what it replied. It
is otherwise the arena that it records, so a heap does the same over both (`Recorded.related`), and it
is as lawful. What a heap asked for, how its arena replied and which regions it obtained are read off
this one list.
-/

namespace NextFit

/-- An arena was asked to grow by so many bytes, and replied. -/
structure Extension where
  bytes : Nat
  reply : Except Failure Nat

/-- The memory that was granted, if some was. -/
def Extension.region? (extension : Extension) : Option Region :=
  match extension.reply with
  | .ok base => some { start := base, stop := base + extension.bytes }
  | .error _ => none

/-- An arena and its extensions since the recording started. -/
structure Recorded (A : Type) where
  arena : A
  record : List Extension := []

/-- What a request for memory adds to the record, if there is one. -/
def Arena.answers {A : Type} [Arena A] (arena : A) (bytes? : Option Nat) : List Extension :=
  (bytes?.map fun bytes => { bytes, reply := Arena.reply arena bytes }).toList

theorem Arena.bytes_answers {A : Type} [Arena A] (arena : A) (bytes? : Option Nat) :
    (Arena.answers arena bytes?).map (·.bytes) = bytes?.toList := by
  cases bytes? with
  | none => rfl
  | some bytes => rfl

namespace Recorded

variable {A : Type}

def inArena {α : Type} (op : Op A α) : Op (Recorded A) α :=
  op.on (·.arena) fun recorded arena => { recorded with arena }

/-- The regions that were granted, in the order in which they were. -/
def regions (recorded : Recorded A) : List Region :=
  recorded.record.filterMap Extension.region?

variable [Arena A]

def extend (bytes : Nat) : Op (Recorded A) Nat := fun recorded =>
  let outcome := Arena.extend bytes recorded.arena
  { result := outcome.result
    state := {
      arena := outcome.state
      record := recorded.record ++ [{ bytes, reply := outcome.result }] }
    events := outcome.events }

instance : Arena (Recorded A) where
  unit := Arena.unit A
  extend
  contains recorded := Arena.contains recorded.arena
  load recorded := Arena.load recorded.arena
  store address header := inArena (Arena.store address header)
  fill address value count := inArena (Arena.fill address value count)

/-- It is this arena, with a record such as is wanted. -/
def Records (wanted : List Extension → Prop) (arena : A) (recorded : Recorded A) : Prop :=
  recorded.arena = arena ∧ wanted recorded.record

/-- A record only changes when the arena is asked to grow. -/
theorem storesAlike (wanted : List Extension → Prop) :
    Arena.StoresAlike (Records (A := A) wanted) where
  unit := rfl
  contains same _ _ := congrArg (Arena.contains · _ _) same.1.symm
  load same _ := congrArg (Arena.load · _) same.1.symm
  store same _ _ := by
    obtain ⟨rfl, known⟩ := same
    exact ⟨rfl, rfl, rfl, known⟩
  fill same _ _ _ := by
    obtain ⟨rfl, known⟩ := same
    exact ⟨rfl, rfl, rfl, known⟩

/-- Whatever there is on the record, the arena answers every call alike. -/
theorem related : Arena.Related (Records (A := A) fun _ => True) where
  toStoresAlike := storesAlike _
  extend same _ := by
    obtain ⟨rfl, -⟩ := same
    exact ⟨rfl, rfl, rfl, trivial⟩

theorem growAlike (arena : A) (record : List Extension) (bytes? : Option Nat) :
    Arena.GrowAlike (Records (· = record)) (Records (· = record ++ Arena.answers arena bytes?)) arena
      bytes? := by
  cases bytes? with
  | none => exact congrArg (fun record => Records (· = record)) (List.append_nil record)
  | some bytes =>
      rintro recorded ⟨rfl, rfl⟩
      exact ⟨rfl, rfl, rfl, rfl⟩

variable {Keeps : A → Ledger → Prop}

/-- The arena is as the ledger says, and the regions on the record are those of the ledger. -/
def Keeping (Keeps : A → Ledger → Prop) (recorded : Recorded A) (ledger : Ledger) : Prop :=
  Keeps recorded.arena ledger ∧ recorded.regions = ledger.regions

theorem laws (laws : Arena.Laws Keeps) : Arena.Laws (Keeping Keeps) where
  unit_pos := laws.unit_pos
  granted := by
    rintro recorded _ ledger bytes base ⟨keeps, same⟩ ⟨answer, rfl⟩
    obtain ⟨nonzero, ends, fresh, kept⟩ := laws.granted keeps ⟨answer, rfl⟩
    refine ⟨nonzero, ends, fresh, kept, ?_⟩
    have last : Extension.region? { bytes, reply := (Arena.extend bytes recorded.arena).result } =
        some { start := base, stop := base + bytes } := by
      rw [show (Arena.extend bytes recorded.arena).result = .ok base from answer]
      rfl
    rw [Ledger.grant, ← same]
    exact List.filterMap_append.trans (congrArg (_ ++ ·) (List.filterMap_cons_some last))
  refused := by
    rintro recorded _ ledger bytes failure ⟨keeps, same⟩ ⟨answer, rfl⟩
    refine ⟨laws.refused keeps ⟨answer, rfl⟩, Eq.trans ?_ same⟩
    have last : Extension.region? { bytes, reply := (Arena.extend bytes recorded.arena).result } =
        none := by
      rw [show (Arena.extend bytes recorded.arena).result = .error failure from answer]
      rfl
    refine List.filterMap_append.trans ?_
    rw [List.filterMap_cons_none last]
    exact List.append_nil _
  contains keeps := laws.contains keeps.1
  load keeps := laws.load keeps.1
  store := by
    intro recorded ledger region address header keeps mem inside leads fits
    obtain ⟨arena', stored, kept⟩ := laws.store keeps.1 mem inside leads fits
    exact ⟨{ recorded with arena := arena' }, .on stored, kept, keeps.2⟩
  fill keeps inside := ⟨laws.fill keeps.1 inside, keeps.2⟩

end Recorded

end NextFit
