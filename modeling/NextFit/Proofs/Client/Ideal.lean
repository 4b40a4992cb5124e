import NextFit.Proofs.Arena.Ideal
import NextFit.Proofs.Client.Mirror
import NextFit.Proofs.Client.OnSegment
import NextFit.Proofs.Client.Recorded

/-! # Segments as ideal arenas

A heap over a segment shows the same as a heap over an ideal arena that replies as the segment has
replied. That headers are bytes among bytes is not to be seen: no header is cut off by the width of
its words, none is written over by another one or by a client, and none is read that was not stored.
The way from one to the other leads over a segment with its shadow.
-/

namespace NextFit

namespace Relocation

/-- Nothing moves. -/
def stay : Relocation where
  base := 1
  target := 1
  base_pos := Nat.one_pos
  target_pos := Nat.one_pos

@[simp] theorem apply_stay : stay.apply = id :=
  apply_self rfl

end Relocation

@[simp] theorem FreeBlock.relocate_stay (blocks : List FreeBlock) :
    relocate .stay blocks = blocks := by
  rw [relocate, Relocation.apply_stay]
  exact List.map_id blocks

@[simp] theorem Request.mapAddresses_id (request : Request) : request.mapAddresses id = request := by
  cases request <;> rfl

namespace Client

open ShadowedSegment (Keeps Shadows)

variable {origin : Segment} {client : Client Segment} {shadow : Client ShadowedSegment}
  {recorded : Client (Recorded Segment)} {ledger ledger' : Ledger} {free : List FreeBlock}
  {known : List Extension} {request : Request} {requests : List Request}
  {config : HeapConfig}

/-- A client of a segment, and one of a shadowed segment that holds the same. -/
abbrev Shadowed (origin : Segment) (client : Client Segment) (shadow : Client ShadowedSegment)
    (ledger ledger' : Ledger) (free : List FreeBlock) : Prop :=
  Mirrors .stay (Segment.KeepsWithin origin.brk origin) (Keeps origin) client shadow ledger ledger'
    free

namespace Shadowed

variable (h : Shadowed origin client shadow ledger ledger' free)

include h

theorem shadow_sound : shadow.Sound (Keeps origin) ledger' free :=
  FreeBlock.relocate_stay free ▸ h.sound'

theorem layout_eq : shadow.heap.layout free = client.heap.layout free := by
  have same := h.layout
  rw [FreeBlock.relocate_stay] at same
  simpa [Layout.relocate] using same

theorem low : ∀ region ∈ ledger.regions, Relocation.stay.base ≤ region.start :=
  h.sound.accounts.holds.wellFormed.start_pos

/-- The segments have grown equally far. -/
theorem reply_eq : Arena.reply shadow.heap.arena = Arena.reply client.heap.arena := by
  have keeps := h.sound.accounts.holds.keeps
  have keeps' := h.sound'.accounts.holds.keeps.segment
  have wellFormed' : ({ regions := ledger'.regions } : Ledger).WellFormed Segment.unit :=
    h.sound'.accounts.holds.wellFormed.congr rfl
  have units : ledger'.units Segment.unit = ledger.units Segment.unit := h.units_eq
  have length : shadow.heap.arena.segment.length = client.heap.arena.length := by
    refine (keeps'.length_eq wellFormed').trans (Eq.trans ?_
      (keeps.length_eq h.sound.accounts.holds.wellFormed).symm)
    rw [← units]
    rfl
  exact Segment.SameExtent.reply
    ⟨keeps'.base.trans keeps.base.symm, length, keeps'.limit.trans keeps.limit.symm⟩

theorem permits (permitted : client.Permits request) : shadow.Permits request := by
  have permits := Mirrors.permits ShadowedSegment.unit_eq (Segment.laws_within _ _)
    h h.low permitted
  simpa using permits

/-- Both clients see the same. -/
theorem step (permitted : client.Permits request) :
    shadow.observe request = client.observe request ∧ ∃ ledger ledger' free,
      Shadowed origin (client.step request) (shadow.step request) ledger ledger' free := by
  have laws := Segment.laws_within origin.brk origin
  have laws' := ShadowedSegment.laws origin
  have positive : ∀ bytes base, Arena.reply client.heap.arena bytes = .ok base →
      Relocation.stay.base ≤ base := by
    intro bytes base answer
    exact (laws.granted h.sound.accounts.holds.keeps ⟨answer, rfl⟩).1
  have same : ∀ bytes, Arena.reply shadow.heap.arena bytes =
      (Arena.reply client.heap.arena bytes).map Relocation.stay.apply := by
    intro bytes
    rw [h.reply_eq, Relocation.apply_stay]
    cases Arena.reply client.heap.arena bytes <;> rfl
  obtain ⟨answer, after, after', left, shadowed⟩ := Mirrors.advance ShadowedSegment.unit_eq
    laws laws' h h.low (Segment.fillable_within _ _) (ShadowedSegment.fillable origin) positive same
    permitted
  rw [Relocation.apply_stay, Request.mapAddresses_id] at answer shadowed
  obtain ⟨listed, listed'⟩ := shadowed.freeBlocks_eq laws laws'
  rw [FreeBlock.relocate_stay] at listed'
  have told : shadow.answer request = client.answer request := by
    rw [answer]
    rcases client.answer request with failure | (_ | address) <;> rfl
  refine ⟨?_, after, after', left, shadowed⟩
  simp only [observe, told, listed, listed', shadowed.stats_eq laws laws']

/-- A run over an ideal arena shows the same if the arena replies as the segment does in the course of
    the run. -/
theorem run (records : Related (Recorded.Records (· = known)) client recorded)
    (permitted : client.PermitsAll requests) :
    ∃ record, (recorded.run requests).heap.arena.record = known ++ record ∧
      ∀ (more : List (Except Failure Nat)) (ideal : Client IdealArena),
        Related (Shadows (record.map (·.reply) ++ more)) shadow ideal →
        ideal.PermitsAll requests ∧ ideal.observations requests = client.observations requests ∧
          (ideal.run requests).heap.arena.replies = more := by
  induction requests generalizing client shadow recorded ledger ledger' free known with
  | nil =>
      refine ⟨[], ?_, fun more ideal related => ⟨trivial, rfl, ?_⟩⟩
      · rw [List.append_nil]
        exact records.heap.pool.arena.2
      · exact congrArg IdealArena.replies related.heap.pool.arena
  | cons request rest ih =>
      let asked := client.asksFor? free request
      have asked' : shadow.asksFor? free request = asked := by
        cases request <;> simp only [asked, asksFor?, h.layout_eq]
        rfl
      obtain ⟨written, -⟩ := h.sound.observe_related (Segment.laws_within _ _)
        (Recorded.storesAlike _) (Recorded.storesAlike _) records
        (Recorded.growAlike client.heap.arena known asked)
      obtain ⟨seen, after, after', left, shadowed⟩ := h.step permitted.1
      obtain ⟨record, writtenLater, later⟩ := ih shadowed written permitted.2
      refine ⟨Arena.answers client.heap.arena asked ++ record, ?_, fun more ideal related => ?_⟩
      · rw [← List.append_assoc]
        exact writtenLater
      · rw [List.map_append, List.append_assoc] at related
        have grow : Arena.GrowAlike (Shadows ((Arena.answers client.heap.arena asked).map (·.reply) ++
            (record.map (·.reply) ++ more))) (Shadows (record.map (·.reply) ++ more))
            shadow.heap.arena (shadow.asksFor? free request) := by
          rw [asked', Arena.answers, ← h.reply_eq]
          cases asked with
          | none => rfl
          | some bytes => exact fun _ same => ShadowedSegment.extend_agrees same
        obtain ⟨stepped, observed⟩ := h.shadow_sound.observe_related (ShadowedSegment.laws origin)
          (ShadowedSegment.storesAlike _) (ShadowedSegment.storesAlike _) related grow
        obtain ⟨permits, seenLater, left⟩ := later more _ stepped
        have first := (related.permits ShadowedSegment.unit_eq_ideal request).1 (h.permits permitted.1)
        exact ⟨⟨first, permits⟩, by rw [observations, observations, observed, seen, seenLater], left⟩

end Shadowed

/-- A heap shows the same over an ideal arena that replies as the segment does, and the replies are used
    up at the end. -/
theorem observations_eq_ideal (segment : Segment) (more : List (Except Failure Nat))
    (permitted : (new segment config).PermitsAll requests) :
    let ideal : IdealArena := { replies := replies segment config requests ++ more }
    (new ideal config).PermitsAll requests ∧
      (new ideal config).observations requests = (new segment config).observations requests ∧
      ((new ideal config).run requests).heap.arena.replies = more := by
  intro ideal
  have start : Shadowed segment (new segment config) (new { segment } config) {} {} [] := {
    sound := .new segment.keepsWithin_empty config
    sound' := .new (ShadowedSegment.keeps_empty segment) config
    layout := congrArg (Layout.mk [] · config 0 0) Relocation.apply_sentinel.symm
    live := rfl }
  obtain ⟨written, all, shows⟩ := start.run (related_new segment config rfl) permitted
  have same : replies segment config requests = written.map (·.reply) := congrArg (List.map _) all
  have related : Related (Shadows (written.map (·.reply) ++ more)) (new { segment } config)
      (new ideal config) := ⟨.new (by rw [← same]; rfl) config, rfl⟩
  exact shows more (new ideal config) related

/-- A client fills memory that was granted in two pieces, and one request is turned down. -/
theorem observations_eq_ideal_across_regions :
    let segment := Segment.default.withLimit 56
    let config : HeapConfig := { minExtensionUnits := 2 }
    let requests : List Request := [.allocate 8, .deallocate 0x10040008, .allocate 32,
      .deallocate 0x10040018, .allocate 48, .fill 0x10040008 255 48, .allocate 1,
      .deallocate 0x10040008]
    let ideal : IdealArena := {
      replies := [.ok 0x10040000, .ok 0x10040010, .error (.refused (.outOfMemory 16))] }
    (new segment config).PermitsAll requests ∧ replies segment config requests = ideal.replies ∧
      ((new segment config).observations requests).map (·.answer) =
        [.ok (some 0x10040008), .ok none, .ok (some 0x10040018), .ok none, .ok (some 0x10040008),
          .ok none, .error (.refused (.outOfMemory 16)), .ok none] ∧
      (new ideal config).PermitsAll requests ∧
      (new ideal config).observations requests = (new segment config).observations requests := by
  intro segment config requests ideal
  have permitted : (new segment config).PermitsAll requests := by decide
  have heard : replies segment config requests = ideal.replies := by decide
  obtain ⟨permits, seen, -⟩ := observations_eq_ideal segment [] permitted
  rw [heard] at permits seen
  exact ⟨permitted, heard, by decide, permits, seen⟩

end Client

end NextFit
