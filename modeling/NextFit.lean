import NextFit.Text.Hex
import NextFit.Text.Grouped
import NextFit.Failure
import NextFit.Event
import NextFit.Op
import NextFit.Size
import NextFit.Rounding
import NextFit.Header
import NextFit.LittleEndian
import NextFit.Memory
import NextFit.Arena
import NextFit.Arena.Segment
import NextFit.Arena.ProgramBreak
import NextFit.Arena.Scripted
import NextFit.Region
import NextFit.FreeBlock
import NextFit.Pool.Basic
import NextFit.Pool.Links
import NextFit.Pool.Take
import NextFit.Pool.Insert
import NextFit.Heap.Config
import NextFit.Heap.Basic
import NextFit.HeapGroup
import NextFit.Session.Basic
import NextFit.Session.OfArena
import NextFit.Session.OfHeaps
import NextFit.Relocation
import NextFit.MemoryDump
import NextFit.Main
import NextFit.Proofs.FreeBlock.Canonical
import NextFit.Proofs.Outcome
import NextFit.Proofs.Ledger
import NextFit.Proofs.Pool.Lap
import NextFit.Proofs.Pool.Walk
import NextFit.Proofs.Pool.Strung
import NextFit.Proofs.Pool.Holds
import NextFit.Proofs.Pool.Take
import NextFit.Proofs.Pool.Insert
import NextFit.Proofs.Heap.Layout
import NextFit.Proofs.Heap.Accounts
import NextFit.Proofs.Heap.Lend
import NextFit.Proofs.Client
import NextFit.Proofs.Client.Observation
import NextFit.Proofs.Agreement
import NextFit.Proofs.Arena.Recorded
import NextFit.Proofs.Heap.Asks
import NextFit.Proofs.Client.Related
import NextFit.Proofs.Client.Recorded
import NextFit.Proofs.Arena.Segment
import NextFit.Proofs.Arena.Slate
import NextFit.Proofs.Pool.Termination
import NextFit.Proofs.Pool.Carving
import NextFit.Proofs.Pool.Coalescing
import NextFit.Proofs.Client.OnSegment
import NextFit.Proofs.Client.Safety
import NextFit.Proofs.Client.FreeList
import NextFit.Proofs.Client.Conservation
import NextFit.Proofs.Client.Canonical
import NextFit.Proofs.Client.Payload
import NextFit.Proofs.Client.Faultless
import NextFit.Proofs.Client.Twins
import NextFit.Proofs.Client.Refusal
import NextFit.Proofs.Arena.ProgramBreak
import NextFit.Proofs.FreeBlock.Relocation
import NextFit.Proofs.Heap.Relocation
import NextFit.Proofs.Client.Mirror
import NextFit.Proofs.Client.Relocation
import NextFit.Proofs.Client.DoubleFree
import NextFit.Proofs.Client.Extension
import NextFit.Proofs.Arena.Ideal
import NextFit.Proofs.Client.Ideal
import NextFit.Proofs.Client.Tenant
import NextFit.Proofs.Community
import NextFit.Proofs.Heap.Guard
import NextFit.Proofs.Arena.Cover
import NextFit.Proofs.Arena.Window
import NextFit.Proofs.Arena.Growth
import NextFit.Proofs.Community.Alignment
import NextFit.Proofs.Community.Exhaustion
import NextFit.Proofs.Arena.Codec
import NextFit.Proofs.Rounding
import NextFit.Proofs.IntKind
import NextFit.Proofs.Heap.Oversize
import NextFit.Proofs.Client.Guards
import NextFit.Proofs.Client.Reuse
