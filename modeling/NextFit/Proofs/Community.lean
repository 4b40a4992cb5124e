import NextFit.HeapGroup
import NextFit.Proofs.Client.Conservation
import NextFit.Proofs.Client.Tenant

/-! # Heaps that share a segment

Any number of heaps may draw on one segment, and others may grow it as well. Whoever has a turn gets
what the segment was grown by in it, and the regions of one heap are mixed with those of the others.
Every heap still accounts for just its own regions, so its blocks are never merged with memory of
anybody else, and a turn leaves the heaps that did not take it as they were.
-/

namespace NextFit

/-- Clients of heaps over one segment. -/
structure Community where
  group : HeapGroup Segment Unit
  /-- What the client of each heap holds. -/
  live : Nat → List Allocation := fun _ => []
  /-- What the segment was grown by, each time for the heap at an index or for somebody else. -/
  grants : List (Option Nat × Region) := []

inductive Turn where
  | request (index : Nat) (request : Request)
  /-- The segment grows for somebody else. -/
  | foreign (bytes : Nat)
  deriving Repr, DecidableEq

/-- The heap that has the turn, if it is one of the heaps. -/
def Turn.holder : Turn → Option Nat
  | .request index _ => some index
  | .foreign _ => none

namespace Community

/-- Heaps over a segment that none of them has asked for anything yet. -/
def new (segment : Segment) (configs : List HeapConfig) : Community where
  group := { common := segment, heaps := configs.map fun config => .new () config }

def segment (community : Community) : Segment :=
  community.group.common

/-- One heap of the group, over the segment, and what its client holds. -/
def client? (community : Community) (index : Nat) : Option (Client Segment) :=
  (community.group.heap? (.whole Segment) index).map fun heap => { heap, live := community.live index }

/-- All that the segment was grown by. -/
def regions (community : Community) : List Region :=
  community.grants.map (·.2)

/-- What the segment was grown by for the heap at an index, or for others than the heaps. -/
def obtained (community : Community) (holder : Option Nat) : List Region :=
  (community.grants.filter (·.1 = holder)).map (·.2)

/-- Whoever had the turn gets what the segment was grown by. -/
def grant (holder : Option Nat) (segment : Segment) (community : Community) :
    List (Option Nat × Region) :=
  community.grants ++ (community.segment.gained segment).map (holder, ·)

/-- Put the client of a heap back at its place behind a turn. -/
def replace (index : Nat) (client : Client Segment) (community : Community) : Community where
  group := community.group.replace (.whole Segment) index client.heap
  live other := if other = index then client.live else community.live other
  grants := community.grant (some index) client.heap.arena

/-- The segment behind a turn of somebody else. -/
def withSegment (segment : Segment) (community : Community) : Community where
  group := { community.group with common := segment }
  live := community.live
  grants := community.grant none segment

def step (community : Community) : Turn → Community
  | .request index request =>
      match community.client? index with
      | some client => community.replace index (client.step request)
      | none => community
  | .foreign bytes =>
      community.withSegment (ExposedArena.growForOthers bytes community.segment).state

def run (community : Community) (turns : List Turn) : Community :=
  turns.foldl step community

/-- Whether the turn may be taken: its heap exists, and the client of this heap permits the request. -/
def Permits (community : Community) : Turn → Prop
  | .request index request => ∃ client ∈ community.client? index, client.Permits request
  | .foreign _ => True

def PermitsAll (community : Community) : List Turn → Prop
  | [] => True
  | turn :: rest => community.Permits turn ∧ (community.step turn).PermitsAll rest

instance decidablePermits (community : Community) : (turn : Turn) → Decidable (community.Permits turn)
  | .request index request => inferInstanceAs
      (Decidable (∃ client ∈ community.client? index, client.Permits request))
  | .foreign _ => .isTrue trivial

instance decidablePermitsAll (community : Community) :
    (turns : List Turn) → Decidable (community.PermitsAll turns)
  | [] => .isTrue trivial
  | turn :: rest =>
      have := decidablePermitsAll (community.step turn) rest
      inferInstanceAs (Decidable (community.Permits turn ∧ (community.step turn).PermitsAll rest))

variable {community : Community} {index other : Nat} {client client' : Client Segment}
  {holder holder' : Option Nat} {segment : Segment}

theorem client?_eq (community : Community) (index : Nat) :
    community.client? index = community.group.heaps[index]?.map fun heap =>
      { heap := heap.withArena community.segment, live := community.live index } := by
  rw [client?, HeapGroup.heap?, Option.map_map]
  rfl

theorem step_request {request : Request} (found : community.client? index = some client) :
    community.step (.request index request) = community.replace index (client.step request) := by
  rw [step, found]

theorem client?_replace_self (found : community.client? index = some client) :
    (community.replace index client').client? index = some client' := by
  rw [client?_eq] at found ⊢
  obtain ⟨heap, at_index, -⟩ := Option.map_eq_some_iff.1 found
  obtain ⟨less, -⟩ := List.getElem?_eq_some_iff.1 at_index
  have placed : (community.replace index client').group.heaps[index]? =
      some (client'.heap.withArena ()) := List.getElem?_set_self less
  have live : (community.replace index client').live index = client'.live := if_pos rfl
  rw [placed, live]
  rfl

theorem client?_replace_of_ne (apart : index ≠ other) :
    (community.replace index client').client? other =
      (community.client? other).map (·.withArena client'.heap.arena) := by
  have placed : (community.replace index client').group.heaps[other]? =
      community.group.heaps[other]? := HeapGroup.heaps_replace_of_ne _ _ _ apart
  have live : (community.replace index client').live other = community.live other :=
    if_neg apart.symm
  rw [client?_eq, client?_eq, placed, live, Option.map_map]
  rfl

theorem client?_withSegment : (community.withSegment segment).client? index =
    (community.client? index).map (·.withArena segment) := by
  rw [client?_eq, client?_eq, Option.map_map]
  rfl

theorem arena_eq (found : community.client? index = some client) :
    client.heap.arena = community.segment := by
  rw [client?_eq] at found
  obtain ⟨heap, -, rfl⟩ := Option.map_eq_some_iff.1 found
  rfl

theorem regions_grant : (community.grant holder segment).map (·.2) =
    community.regions ++ community.segment.gained segment := by
  rw [grant, List.map_append, List.map_map, regions]
  exact congrArg _ (List.map_id _)

theorem obtained_grant_self :
    ((community.grant holder segment).filter (·.1 = holder)).map (·.2) =
      community.obtained holder ++ community.segment.gained segment := by
  simp [grant, obtained, List.filter_map, Function.comp_def]

theorem obtained_grant_of_ne (apart : holder ≠ holder') :
    ((community.grant holder segment).filter (·.1 = holder')).map (·.2) =
      community.obtained holder' := by
  simp [grant, obtained, List.filter_map, Function.comp_def, apart]

theorem sublist_obtained (community : Community) (holder : Option Nat) :
    (community.obtained holder).Sublist community.regions :=
  List.filter_sublist.map _

theorem disjoint_obtained {start stop : Nat} {region region' : Region}
    (follow : Region.Follow start community.regions stop) (apart : holder ≠ holder')
    (mem : region ∈ community.obtained holder) (mem' : region' ∈ community.obtained holder') :
    region.Disjoint region' := by
  have symm : Std.Symm fun g g' : Option Nat × Region => g.2.Disjoint g'.2 :=
    ⟨fun _ _ h x mem other => h x other mem⟩
  have disjoint := List.pairwise_map.1 follow.pairwise_disjoint
  obtain ⟨g, held, rfl⟩ := List.mem_map.1 mem
  obtain ⟨g', held', rfl⟩ := List.mem_map.1 mem'
  obtain ⟨granted, own⟩ := List.mem_filter.1 held
  obtain ⟨granted', own'⟩ := List.mem_filter.1 held'
  apply disjoint.forall granted granted'
  rintro rfl
  exact apart ((of_decide_eq_true own).symm.trans (of_decide_eq_true own'))

/-- The segment serves the client, whose heap accounts for just what it obtained. -/
def Serves (start : Nat) (community : Community) (index : Nat) (client : Client Segment) : Prop :=
  ∃ ledger free, ledger.regions = community.obtained (some index) ∧
    client.Sound (Segment.Serves start community.regions (community.obtained (some index))) ledger free

/-- What holds of a community between two turns, if the segment ended at `start` before the first. -/
structure Sound (start : Nat) (community : Community) : Prop where
  keeps : community.segment.Keeps start { regions := community.regions }
  serves : ∀ index client, community.client? index = some client →
    community.Serves start index client

/-- What a turn does to all but its holder. -/
structure Advance (start : Nat) (holder : Option Nat) (community community' : Community) : Prop where
  keeps : community'.segment.Keeps start { regions := community'.regions }
  regions : ∃ more, community'.regions = community.regions ++ more
  obtained : ∀ index, holder ≠ some index →
    community'.obtained (some index) = community.obtained (some index)
  client? : ∀ index, holder ≠ some index → community'.client? index =
    (community.client? index).map (·.withArena community'.segment)
  same : ∀ index client, holder ≠ some index → community.client? index = some client →
    ∀ region ∈ community.obtained (some index), ∀ x ∈ region,
      community'.segment.memory.byteAt x = community.segment.memory.byteAt x

section Turn

variable {community' : Community} {start : Nat} {request : Request} {turn : Turn}

/-- A heap that does not have the turn is served as before, and its client finds everything as it
    was. -/
theorem Advance.bystander (advance : Advance start holder community community')
    (h : community.Sound start) (apart : holder ≠ some index)
    (found : community.client? index = some client) :
    ∃ client', community'.client? index = some client' ∧ client.Undisturbed client' ∧
      community'.Serves start index client' := by
  obtain ⟨ledger, free, regions, sound⟩ := h.serves index client found
  obtain ⟨more, all⟩ := advance.regions
  have part := community.sublist_obtained (some index)
  have keeps := advance.keeps
  have same := advance.same index client apart found
  rw [all] at keeps
  rw [← arena_eq found] at same
  obtain ⟨ledger', regions', sound'⟩ := sound.withArena part regions keeps same
  refine ⟨client.withArena community'.segment, ?_, sound.undisturbed part regions keeps same, ?_⟩
  · rw [advance.client? index apart, found, Option.map_some]
  · rw [Serves, advance.obtained index apart, all]
    exact ⟨ledger', free, regions', sound'⟩

/-- A request is served, and changes no byte of what another heap obtained. -/
theorem Sound.advance_request (h : community.Sound start) (found : community.client? index = some client)
    (permitted : client.Permits request) :
    Advance start (some index) community (community.replace index (client.step request)) ∧
      (community.replace index (client.step request)).Serves start index (client.step request) := by
  obtain ⟨ledger, free, regions, sound⟩ := h.serves index client found
  obtain ⟨⟨ledger', free', regions', sound'⟩, untouched⟩ :=
    sound.request_among (community.sublist_obtained _) regions permitted
  rw [arena_eq found] at regions' sound' untouched
  generalize client.step request = client' at regions' sound' untouched ⊢
  have all : (community.replace index client').regions =
      community.regions ++ community.segment.gained client'.heap.arena := regions_grant
  have own : (community.replace index client').obtained (some index) =
      community.obtained (some index) ++ community.segment.gained client'.heap.arena :=
    obtained_grant_self
  rw [← own] at regions' sound' untouched
  rw [← all] at sound'
  have others : ∀ other, some index ≠ some other →
      (community.replace index client').obtained (some other) = community.obtained (some other) :=
    fun other apart => obtained_grant_of_ne apart
  have keeps : client'.heap.arena.Keeps start { regions := (community.replace index client').regions } :=
    { sound'.accounts.holds.keeps.keeps_all regions' with header := nofun }
  refine ⟨?_, ledger', free', regions', sound'⟩
  constructor
  case keeps => exact keeps
  case regions => exact ⟨_, all⟩
  case obtained => exact others
  case client? => exact fun other apart => client?_replace_of_ne fun same => apart (congrArg some same)
  case same =>
    intro other client₁ apart found₁ region mem x byte
    obtain ⟨ledger₁, free₁, regions₁, sound₁⟩ := h.serves other client₁ found₁
    have span : (region.block Segment.unit).span Segment.unit = region :=
      sound₁.accounts.holds.wellFormed.span_block (by decide) (regions₁ ▸ mem)
    have ends : (region.block Segment.unit).stop Segment.unit = region.stop :=
      congrArg Region.stop span
    rw [← span] at byte
    apply untouched (region.block Segment.unit) ?_ ?_ x byte
    · apply h.keeps.contains ((community.sublist_obtained _).subset mem)
      exact Region.contains_eq_true_iff.2 ⟨Nat.le_refl _, Nat.le_of_eq ends⟩
    · intro mine held
      rw [span]
      exact disjoint_obtained keeps.follow apart held ((others other apart).symm ▸ mem)

theorem Sound.advance_foreign (h : community.Sound start) (bytes : Nat) :
    Advance start none community (community.step (.foreign bytes)) := by
  obtain ⟨memory, keeps⟩ := h.keeps.grow bytes
  have all : (community.step (.foreign bytes)).regions = community.regions ++
      community.segment.gained (Segment.extend bytes community.segment).state := regions_grant
  constructor
  case keeps =>
    rw [all]
    exact keeps
  case regions => exact ⟨_, all⟩
  case obtained => exact fun index apart => obtained_grant_of_ne apart
  case client? => exact fun index _ => client?_withSegment
  case same => exact fun _ _ _ _ _ _ x _ => congrArg (·.byteAt x) memory

/-- Whoever has the turn is served, and all the others are left alone. -/
theorem Sound.advance (h : community.Sound start) (permitted : community.Permits turn) :
    Advance start turn.holder community (community.step turn) ∧
      ∀ index client', turn.holder = some index →
        (community.step turn).client? index = some client' →
          (community.step turn).Serves start index client' := by
  cases turn with
  | foreign bytes => exact ⟨h.advance_foreign bytes, nofun⟩
  | request index request =>
      obtain ⟨client, found, permitted⟩ := permitted
      rw [step_request found]
      obtain ⟨advance, serves⟩ := h.advance_request found permitted
      refine ⟨advance, ?_⟩
      intro other client' same found'
      cases same
      rw [client?_replace_self found] at found'
      cases found'
      exact serves

/-- Every turn keeps the accounts of all heaps, and only its holder can tell that it was taken. -/
theorem Sound.step (h : community.Sound start) (permitted : community.Permits turn) :
    (community.step turn).Sound start ∧
      ∀ index client, turn.holder ≠ some index → community.client? index = some client →
        ∃ client', (community.step turn).client? index = some client' ∧
          client.Undisturbed client' := by
  obtain ⟨advance, holder⟩ := h.advance permitted
  refine ⟨⟨advance.keeps, ?_⟩, ?_⟩
  · intro index client' found'
    by_cases same : turn.holder = some index
    · exact holder index client' same found'
    · have moved := advance.client? index same
      obtain ⟨client, found, -⟩ := Option.map_eq_some_iff.1 (moved.symm.trans found')
      obtain ⟨client'', found'', -, serves⟩ := advance.bystander h same found
      cases found'.symm.trans found''
      exact serves
  · intro index client apart found
    obtain ⟨client', found', undisturbed, -⟩ := advance.bystander h apart found
    exact ⟨client', found', undisturbed⟩

theorem Sound.run {turns : List Turn} (h : community.Sound start)
    (permitted : community.PermitsAll turns) : (community.run turns).Sound start := by
  induction turns generalizing community with
  | nil => exact h
  | cons turn rest ih => exact ih (h.step permitted.1).1 permitted.2

theorem Sound.new (segment : Segment) (configs : List HeapConfig) :
    (new segment configs).Sound segment.brk where
  keeps := segment.keeps_empty
  serves index client found := by
    rw [client?_eq] at found
    obtain ⟨heap, placed, rfl⟩ := Option.map_eq_some_iff.1 found
    obtain ⟨config, -, rfl⟩ := List.mem_map.1 (List.mem_of_getElem? placed)
    have keeps : Segment.Serves segment.brk [] [] segment {} :=
      .of_keeps segment.keeps_empty rfl
    exact ⟨{}, [], rfl, .new keeps config⟩

end Turn

theorem length_heaps_step (community : Community) (turn : Turn) :
    (community.step turn).group.heaps.length = community.group.heaps.length := by
  cases turn with
  | request index request =>
      rw [step]
      cases community.client? index with
      | none => rfl
      | some client => exact List.length_set
  | foreign bytes => rfl

theorem length_heaps_run (community : Community) (turns : List Turn) :
    (community.run turns).group.heaps.length = community.group.heaps.length := by
  induction turns generalizing community with
  | nil => rfl
  | cons turn rest ih => exact (ih _).trans (community.length_heaps_step turn)

theorem exists_client? (community : Community) (less : index < community.group.heaps.length) :
    ∃ client, community.client? index = some client := by
  rw [client?_eq, List.getElem?_eq_getElem less]
  exact ⟨_, rfl⟩

theorem Serves.divides {start : Nat} (h : community.Serves start index client) :
    ∃ free, client.Divides (community.obtained (some index)) free := by
  obtain ⟨ledger, free, regions, sound⟩ := h
  have divides := sound.divides (Segment.laws_serves start (community.sublist_obtained _))
  rw [regions] at divides
  exact ⟨free, divides⟩

/-- A heap has its blocks from nobody else. -/
theorem Sound.exists_obtained {start x : Nat} {free : List FreeBlock} {b : FreeBlock}
    (h : community.Sound start) (found : community.client? index = some client)
    (listed : client.heap.freeBlocks = .ok free) (mem : b ∈ free ++ client.blocks)
    (byte : x ∈ b.span Segment.unit) :
    ∃ region ∈ community.obtained (some index), x ∈ region := by
  obtain ⟨free', divides⟩ := (h.serves index client found).divides
  cases divides.freeBlocks.symm.trans listed
  exact (divides.occupied x).1 ⟨b, mem, byte⟩

/-- Behind every run of any number of heaps over one segment, each heap divides just what it obtained
    among its blocks, these share no byte with anybody else, and a turn leaves the heaps that do not
    have it as they were. -/
theorem heaps_independent {segment : Segment} {configs : List HeapConfig} {turns : List Turn}
    (permitted : (new segment configs).PermitsAll turns) :
    let community := (new segment configs).run turns
    Region.Follow segment.brk community.regions community.segment.brk ∧
    (∀ index < configs.length, ∃ client free, community.client? index = some client ∧
      client.Divides (community.obtained (some index)) free) ∧
    (∀ index client free, community.client? index = some client →
      client.heap.freeBlocks = .ok free → ∀ b ∈ free ++ client.blocks,
        (∀ region ∈ community.obtained none, (b.span Segment.unit).Disjoint region) ∧
        ∀ other client' free', index ≠ other → community.client? other = some client' →
          client'.heap.freeBlocks = .ok free' → ∀ c ∈ free' ++ client'.blocks,
            (b.span Segment.unit).Disjoint (c.span Segment.unit)) ∧
    ∀ turn, community.Permits turn → ∀ index client, turn.holder ≠ some index →
      community.client? index = some client →
        ∃ client', (community.step turn).client? index = some client' ∧
          client.Undisturbed client' := by
  intro community
  have sound : community.Sound segment.brk := (Sound.new segment configs).run permitted
  refine ⟨sound.keeps.follow, ?_, ?_, fun turn next => (sound.step next).2⟩
  · intro index less
    have count : community.group.heaps.length = configs.length := by
      rw [length_heaps_run, new, List.length_map]
    obtain ⟨client, found⟩ := community.exists_client? (count ▸ less)
    obtain ⟨free, divides⟩ := (sound.serves index client found).divides
    exact ⟨client, free, found, divides⟩
  · intro index client free found listed b mem
    refine ⟨?_, ?_⟩
    · intro region granted x byte
      obtain ⟨own, obtained, inside⟩ := sound.exists_obtained found listed mem byte
      exact disjoint_obtained sound.keeps.follow (by simp) obtained granted x inside
    · intro other client' free' apart found' listed' c mem' x byte byte'
      obtain ⟨own, obtained, inside⟩ := sound.exists_obtained found listed mem byte
      obtain ⟨own', obtained', inside'⟩ := sound.exists_obtained found' listed' mem' byte'
      exact disjoint_obtained sound.keeps.follow (by simpa using apart) obtained obtained' x inside
        inside'

/-- A free block of the first heap ends where one of the second heap starts. They stay apart, and the
    first heap does not notice that the second one merges its own. -/
theorem heaps_independent_touching :
    let heaps := new Segment.default [{ minExtensionUnits := 4 }, { minExtensionUnits := 3 }]
    let turns : List Turn := [.request 0 (.allocate 8), .request 1 (.allocate 8), .foreign 3,
      .request 0 (.allocate 20), .request 0 (.deallocate 0x10040018)]
    let next : Turn := .request 1 (.deallocate 0x10040030)
    heaps.PermitsAll turns ∧ (heaps.run turns).Permits next ∧ next.holder ≠ some 0 ∧
      (heaps.run turns).obtained (some 0) =
        [{ start := 0x10040000, stop := 0x10040020 }, { start := 0x1004003b, stop := 0x1004005b }] ∧
      ((heaps.run turns).client? 0).map (·.heap.freeBlocks) =
        some (.ok [{ address := 0x10040000, size := 4 }]) ∧
      ((heaps.run turns).client? 1).map (·.heap.freeBlocks) =
        some (.ok [{ address := 0x10040020, size := 1 }]) ∧
      ∃ client client', (heaps.run turns).client? 0 = some client ∧
        ((heaps.run turns).step next).client? 0 = some client' ∧ client.Undisturbed client' := by
  intro heaps turns next
  have permitted : heaps.PermitsAll turns := by decide
  have follows : (heaps.run turns).Permits next := by decide
  have apart : next.holder ≠ some 0 := by decide
  obtain ⟨-, divided, -, unnoticed⟩ := heaps_independent permitted
  obtain ⟨client, free, found, -⟩ := divided 0 (by decide)
  obtain ⟨client', found', undisturbed⟩ := unnoticed next follows 0 client apart found
  exact ⟨permitted, follows, apart, by decide, by decide, by decide, client, client', found, found',
    undisturbed⟩

end Community

end NextFit
