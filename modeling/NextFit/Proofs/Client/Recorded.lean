import NextFit.Proofs.Client.Related

/-! # What is on record behind a run

A client has the same run over an arena and over a record of it. So the record at the end of the run says
which regions the heap of the client has obtained, whatever else the arena does or grants, and how the
arena has replied.
-/

namespace NextFit.Client

variable {A : Type} [Arena A] {Keeps : A → Ledger → Prop} {ledger : Ledger} {free : List FreeBlock}
  {arena : A} {config : HeapConfig} {requests : List Request}

/-- The extensions of the arena of a new client in the course of the requests. -/
def record (arena : A) (config : HeapConfig) (requests : List Request) : List Extension :=
  ((new ({ arena } : Recorded A) config).run requests).heap.arena.record

/-- The regions that the heap of a new client has obtained behind a run. -/
def obtained (arena : A) (config : HeapConfig) (requests : List Request) : List Region :=
  (record arena config requests).filterMap Extension.region?

/-- How the arena of a new client replies in the course of the requests. -/
def replies (arena : A) (config : HeapConfig) (requests : List Request) :
    List (Except Failure Nat) :=
  (record arena config requests).map (·.reply)

omit [Arena A] in
theorem related_new {wanted : List Extension → Prop} (arena : A) (config : HeapConfig)
    (empty : wanted []) :
    Related (Recorded.Records wanted) (new arena config) (new { arena } config) :=
  ⟨.new (show Recorded.Records wanted arena { arena } from ⟨rfl, empty⟩) config, rfl⟩

/-- The accounts of a recorded arena are those of the arena. -/
theorem Sound.of_recorded {wanted : List Extension → Prop} {client : Client A}
    {other : Client (Recorded A)} (h : other.Sound (Recorded.Keeping Keeps) ledger free)
    (related : Related (Recorded.Records wanted) client other) : client.Sound Keeps ledger free := by
  have pool := related.heap.pool
  have accounts := h.accounts
  have holds := accounts.holds
  refine ⟨?_, related.live.symm ▸ h.behind⟩
  rw [blocks, related.live]
  constructor
  case holds =>
    constructor
    case keeps => exact pool.arena.1 ▸ holds.keeps.1
    case linked =>
      unfold Pool.record?
      rw [pool.freeList]
      exact holds.linked
    case node =>
      rw [Pool.start, pool.freeList]
      exact holds.node
    case unused =>
      rw [pool.freeList]
      exact holds.unused
    case wellFormed => exact holds.wellFormed
    case separated => exact holds.separated
    case nonempty => exact holds.nonempty
    case owned => exact holds.owned
  case tile => exact accounts.tile
  case nonempty => exact accounts.nonempty
  case header => exact accounts.header
  case arenaUnits => exact related.heap.arenaUnits.trans accounts.arenaUnits
  case extensions => exact related.heap.extensions.trans accounts.extensions

/-- Behind every run, the heap accounts for the regions that it has obtained. -/
theorem exists_sound (lawful : Arena.Lawful arena)
    (permitted : (new arena config).PermitsAll requests) :
    ∃ Keeps ledger free, Arena.Laws Keeps ∧
      ((new arena config).run requests).Sound Keeps ledger free ∧
      ledger.regions = obtained arena config requests := by
  obtain ⟨Keeps, laws, keeps⟩ := lawful
  have start : Related (Recorded.Records fun _ => True) (new arena config) (new { arena } config) :=
    related_new arena config trivial
  have recorded : (new ({ arena } : Recorded A) config).Sound (Recorded.Keeping Keeps) {} [] :=
    .new ⟨keeps, rfl⟩ config
  obtain ⟨ledger, free, sound, -⟩ := recorded.run (Recorded.laws laws)
    ((start.permitsAll Recorded.related requests).1 permitted)
  refine ⟨Keeps, ledger, free, laws, sound.of_recorded (start.run Recorded.related requests), ?_⟩
  exact sound.accounts.holds.keeps.2.symm

end NextFit.Client
