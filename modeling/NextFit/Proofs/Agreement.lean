import NextFit.Heap.Basic
import NextFit.Proofs.Outcome

/-! # Heaps over related arenas

Two arenas may differ in what they keep and still answer every call alike. A heap cannot tell them
apart: it ends each request the same way over both. `op.Agrees R other s t` says so of one operation;
operations that are built from others agree if their parts do. Of arenas that only store alike, this
holds as long as a heap does not grow, and beyond that where they grow alike by what it asks for.
-/

namespace NextFit

namespace Op

variable {σ τ ρ κ α β : Type} {R R' : σ → τ → Prop} {s s' : σ} {t : τ}

/-- From `s` and `t`, both operations end in the same way, in related states. -/
structure Agrees (R : σ → τ → Prop) (op : Op σ α) (other : Op τ α) (s : σ) (t : τ) : Prop where
  result : (op s).result = (other t).result
  events : (op s).events = (other t).events
  state : R (op s).state (other t).state

namespace Agrees

theorem pure (related : R s t) (value : α) :
    Agrees R (Pure.pure value) (Pure.pure value) s t :=
  ⟨rfl, rfl, related⟩

theorem fail (related : R s t) (failure : Failure) :
    Agrees R (Op.fail failure : Op σ α) (Op.fail failure) s t :=
  ⟨rfl, rfl, related⟩

theorem report (related : R s t) (event : Event) :
    Agrees R (Op.report event) (Op.report event) s t :=
  ⟨rfl, rfl, related⟩

theorem update {change : σ → σ} {change' : τ → τ} (related : R (change s) (change' t)) :
    Agrees R (Op.update change) (Op.update change') s t :=
  ⟨rfl, rfl, related⟩

theorem bind {op : Op σ α} {other : Op τ α} {next : α → Op σ β} {next' : α → Op τ β}
    (first : Agrees R op other s t)
    (rest : ∀ value s t, R s t → Agrees R (next value) (next' value) s t) :
    Agrees R (op >>= next) (other >>= next') s t := by
  obtain ⟨result, events, related⟩ := first
  cases left : op s with
  | mk ended changed reported =>
      cases right : other t with
      | mk ended' changed' reported' =>
          simp only [left, right] at result events related
          subst result events
          cases ended with
          | ok value =>
              have later := rest value changed changed' related
              refine ⟨?_, ?_, ?_⟩ <;> rw [bind_of_ok left, bind_of_ok right]
              · exact later.result
              · exact congrArg (reported ++ ·) later.events
              · exact later.state
          | error failure =>
              refine ⟨?_, ?_, ?_⟩ <;> rw [bind_of_error left, bind_of_error right]
              exact related

/-- If it is known how the first step ends, the rest only has to agree behind this end. -/
theorem bind_of_yields {op : Op σ α} {other : Op τ α} {next : α → Op σ β} {next' : α → Op τ β}
    {value : α} (first : Agrees R op other s t) (ends : op.Yields s (.ok value) s')
    (rest : ∀ t', R s' t' → Agrees R' (next value) (next' value) s' t') :
    Agrees R' (op >>= next) (other >>= next') s t := by
  obtain ⟨result, events, related⟩ := first
  obtain ⟨done, rfl⟩ := ends
  have left : op s = ⟨.ok value, (op s).state, (op s).events⟩ := by rw [← done]
  have right : other t = ⟨.ok value, (other t).state, (op s).events⟩ := by
    rw [← done, result, events]
  have later := rest _ related
  refine ⟨?_, ?_, ?_⟩ <;> rw [bind_of_ok left, bind_of_ok right]
  · exact later.result
  · exact congrArg ((op s).events ++ ·) later.events
  · exact later.state

theorem bind_of_fails {op : Op σ α} {other : Op τ α} {next : α → Op σ β} {next' : α → Op τ β}
    {failure : Failure} (first : Agrees R op other s t) (ends : op.Yields s (.error failure) s') :
    Agrees R (op >>= next) (other >>= next') s t := by
  obtain ⟨result, events, related⟩ := first
  have failed := ends.1
  have left : op s = ⟨.error failure, (op s).state, (op s).events⟩ := by rw [← failed]
  have right : other t = ⟨.error failure, (other t).state, (op s).events⟩ := by
    rw [← failed, result, events]
  refine ⟨?_, ?_, ?_⟩ <;> rw [bind_of_error left, bind_of_error right]
  exact related

/-- Both operations may look at their states. -/
theorem bind_state {next : σ → Op σ α} {next' : τ → Op τ α}
    (rest : Agrees R (next s) (next' t) s t) :
    Agrees R (Op.state >>= next) (Op.state >>= next') s t := by
  obtain ⟨result, events, related⟩ := rest
  exact ⟨result, events, related⟩

theorem ofExcept (related : R s t) (computation : Except Fault α) :
    Agrees R (Op.ofExcept computation) (Op.ofExcept computation) s t := by
  cases computation with
  | ok value => exact pure related value
  | error fault => exact fail related _

theorem query {read : σ → Except Fault α} {read' : τ → Except Fault α} (related : R s t)
    (same : read s = read' t) : Agrees R (Op.query read) (Op.query read') s t := by
  have both := ofExcept related (read' t)
  constructor <;> simp only [Op.query, same]
  · exact both.result
  · exact both.events
  · exact both.state

theorem require {condition condition' : Prop} [Decidable condition] [Decidable condition']
    (related : R s t) (otherwise : Fault) (same : condition ↔ condition') :
    Agrees R (Op.require condition otherwise) (Op.require condition' otherwise) s t := by
  simp only [Op.require, same]
  split
  · exact pure related ()
  · exact fail related _

theorem on {S : ρ → κ → Prop} {part : σ → ρ} {part' : τ → κ} {replace : σ → ρ → σ}
    {replace' : τ → κ → τ} {op : Op ρ α} {other : Op κ α}
    (h : Agrees S op other (part s) (part' t))
    (related : ∀ x y, S x y → R (replace s x) (replace' t y)) :
    Agrees R (op.on part replace) (other.on part' replace') s t :=
  ⟨h.result, h.events, related _ _ h.state⟩

theorem reportRefusal {op : Op σ α} {other : Op τ α} (event : Refusal → Event)
    (h : Agrees R op other s t) :
    Agrees R (op.reportRefusal event) (other.reportRefusal event) s t := by
  constructor <;> simp only [Op.reportRefusal, h.result] <;> split
  · rfl
  · exact h.result
  · exact congrArg (· ++ [event _]) h.events
  · exact h.events
  · exact h.state
  · exact h.state

/-- Operations that agree down to the state are one operation there. -/
theorem eq {op other : Op σ α} {R : σ → σ → Prop} (h : Agrees R op other s s)
    (state : (op s).state = (other s).state) : op s = other s := by
  obtain ⟨result, events, -⟩ := h
  cases left : op s
  cases right : other s
  simp only [left, right] at result events state
  rw [result, events, state]

end Agrees

end Op

/-- What two arenas answer alike in, from any states in `R`, as long as they do not grow. -/
structure Arena.StoresAlike {A B : Type} [Arena A] [Arena B] (R : A → B → Prop) : Prop where
  unit : Arena.unit A = Arena.unit B
  contains : ∀ {a b}, R a b → ∀ address length,
    Arena.contains a address length = Arena.contains b address length
  load : ∀ {a b}, R a b → ∀ address, Arena.load a address = Arena.load b address
  store : ∀ {a b}, R a b → ∀ address header,
    (Arena.store address header).Agrees R (Arena.store address header) a b
  fill : ∀ {a b}, R a b → ∀ address value count,
    (Arena.fill address value count).Agrees R (Arena.fill address value count) a b

/-- What two arenas answer alike in, also when they grow. -/
structure Arena.Related {A B : Type} [Arena A] [Arena B] (R : A → B → Prop) : Prop
    extends Arena.StoresAlike R where
  extend : ∀ {a b}, R a b → ∀ bytes, (Arena.extend bytes).Agrees R (Arena.extend bytes) a b

/-- An arena answers like itself. -/
theorem Arena.storesAlike_eq {A : Type} [Arena A] : Arena.StoresAlike (Eq (α := A)) where
  unit := rfl
  contains same _ _ := same ▸ rfl
  load same _ := same ▸ rfl
  store same _ _ := by
    cases same
    exact ⟨rfl, rfl, rfl⟩
  fill same _ _ _ := by
    cases same
    exact ⟨rfl, rfl, rfl⟩

/-- Asked for so many bytes, `a` and any arena in `R` to it grow alike and come to states in `R'`. Not
    asked at all, they stay in `R`. -/
def Arena.GrowAlike {A B : Type} [Arena A] [Arena B] (R R' : A → B → Prop) (a : A) :
    Option Nat → Prop
  | some bytes => ∀ b, R a b → (Arena.extend bytes).Agrees R' (Arena.extend bytes) a b
  | none => R' = R

theorem Arena.growAlike_eq {A : Type} [Arena A] (arena : A) (bytes? : Option Nat) :
    Arena.GrowAlike Eq Eq arena bytes? := by
  cases bytes? with
  | none => rfl
  | some bytes =>
      intro other same
      cases same
      exact ⟨rfl, rfl, rfl⟩

variable {A B : Type} {R R' : A → B → Prop} {α : Type}

namespace Pool

variable {pool : Pool A} {other : Pool B}

/-- The same free list over related arenas. -/
structure Related (R : A → B → Prop) (pool : Pool A) (other : Pool B) : Prop where
  arena : R pool.arena other.arena
  freeList : pool.freeList = other.freeList

theorem Related.inArena {op : Op A α} {op' : Op B α} (h : Related R pool other)
    (agrees : op.Agrees R' op' pool.arena other.arena) :
    (inArena op).Agrees (Related R') (inArena op') pool other :=
  agrees.on fun _ _ related => ⟨related, h.freeList⟩

theorem Related.setCursor (h : Related R pool other) (address : Nat) :
    (setCursor address).Agrees (Related R) (setCursor address) pool other :=
  .update ⟨h.arena, by rw [h.freeList]⟩

theorem Related.useCursor (h : Related R pool other) :
    useCursor.Agrees (Related R) useCursor pool other := by
  apply Op.Agrees.bind_state
  rw [h.freeList]
  cases other.freeList.cursor with
  | some address => exact .pure h _
  | none =>
      apply Op.Agrees.bind (.report h _)
      intro _ _ _ h
      exact .bind (h.setCursor _) fun _ _ _ h => .pure h _

variable [Arena A] [Arena B] (arenas : Arena.StoresAlike R)

include arenas

theorem Related.header (h : Related R pool other) (address : Nat) :
    pool.header address = other.header address := by
  unfold Pool.header
  rw [h.freeList, arenas.load h.arena]

theorem Related.blocks (h : Related R pool other) : pool.blocks = other.blocks := by
  have walk : ∀ steps current, pool.blocksFrom steps current = other.blocksFrom steps current := by
    intro steps
    induction steps with
    | zero => exact fun _ => rfl
    | succ steps ih => intro current; simp only [blocksFrom, h.header arenas, ih]
  unfold Pool.blocks
  rw [h.freeList]
  simp only [walk]

theorem Related.search (h : Related R pool other) (units start : Nat) :
    pool.search units start = other.search units start :=
  search_congr (h.header arenas) units start

theorem Related.slot (h : Related R pool other) (block start : Nat) :
    pool.slot block start = other.slot block start :=
  slot_congr (h.header arenas) block start

theorem Related.setHeader (h : Related R pool other) (address : Nat) (header : Header) :
    (setHeader address header).Agrees (Related R) (setHeader address header) pool other := by
  unfold Pool.setHeader
  split
  · exact .update ⟨h.arena, by rw [h.freeList]⟩
  · exact h.inArena (arenas.store h.arena _ _)

theorem Related.unlink (h : Related R pool other) (fit : Fit) :
    (unlink fit).Agrees (Related R) (unlink fit) pool other :=
  .bind (.query h (h.header arenas _)) fun _ _ _ h => h.setHeader arenas _ _

theorem Related.carveTail (h : Related R pool other) (units : Nat) (fit : Fit) :
    (carveTail units fit).Agrees (Related R) (carveTail units fit) pool other := by
  unfold Pool.carveTail
  rw [arenas.unit]
  apply Op.Agrees.bind (h.setHeader arenas _ _)
  intro _ _ _ h
  apply Op.Agrees.bind (.ofExcept h _)
  intro _ _ _ h
  apply Op.Agrees.bind (h.inArena (arenas.store h.arena _ _))
  intro _ _ _ h
  exact .bind (.report h _) fun _ _ _ h => .pure h _

theorem Related.take (h : Related R pool other) (units : Nat) :
    (take units).Agrees (Related R) (take units) pool other := by
  apply Op.Agrees.bind (.require h _ .rfl)
  intro _ _ _ h
  apply Op.Agrees.bind h.useCursor
  intro start _ _ h
  apply Op.Agrees.bind (.query h (h.search arenas _ _))
  intro found _ _ h
  cases found with
  | none => exact .bind (.report h _) fun _ _ _ h => .pure h _
  | some fit =>
      dsimp only
      split
      · apply Op.Agrees.bind (.report h _)
        intro _ _ _ h
        apply Op.Agrees.bind (h.unlink arenas _)
        intro _ _ _ h
        exact .bind (h.setCursor _) fun _ _ _ h => .pure h _
      · apply Op.Agrees.bind (h.carveTail arenas _ _)
        intro _ _ _ h
        exact .bind (h.setCursor _) fun _ _ _ h => .pure h _

theorem Related.absorbSuccessor (h : Related R pool other) (block : Nat) (released : Header)
    (next : Nat) : (absorbSuccessor block released next).Agrees (Related R)
      (absorbSuccessor block released next) pool other := by
  unfold Pool.absorbSuccessor
  rw [arenas.unit]
  apply Op.Agrees.bind (.ofExcept h _)
  intro stop _ _ h
  split
  · apply Op.Agrees.bind (.query h (h.header arenas _))
    intro _ _ _ h
    apply Op.Agrees.bind (.report h _)
    intro _ _ _ h
    exact .bind (.ofExcept h _) fun _ _ _ h => .pure h _
  · exact .pure h _

theorem Related.linkBehind (h : Related R pool other) (before : Nat) (previous : Header)
    (block : Nat) (released : Header) : (linkBehind before previous block released).Agrees
      (Related R) (linkBehind before previous block released) pool other := by
  unfold Pool.linkBehind
  rw [arenas.unit]
  apply Op.Agrees.bind (.ofExcept h _)
  intro stop _ _ h
  split
  · apply Op.Agrees.bind (.report h _)
    intro _ _ _ h
    exact .bind (.ofExcept h _) fun _ _ _ h => h.setHeader arenas _ _
  · exact .bind (h.inArena (arenas.store h.arena _ _)) fun _ _ _ h => h.setHeader arenas _ _

theorem Related.insert (h : Related R pool other) (block : Nat) :
    (insert block).Agrees (Related R) (insert block) pool other := by
  apply Op.Agrees.bind (.require h _ .rfl)
  intro _ _ _ h
  apply Op.Agrees.bind h.useCursor
  intro start _ _ h
  apply Op.Agrees.bind (.query h (h.blocks arenas))
  intro nodes _ _ h
  apply Op.Agrees.bind (.require h _ .rfl)
  intro _ _ _ h
  apply Op.Agrees.bind (.query h (h.slot arenas _ _))
  intro before _ _ h
  apply Op.Agrees.bind (.query h (arenas.load h.arena _))
  intro released _ _ h
  apply Op.Agrees.bind (.query h (h.header arenas _))
  intro previous _ _ h
  apply Op.Agrees.bind (h.absorbSuccessor arenas _ _ _)
  intro joined _ _ h
  exact .bind (h.linkBehind arenas _ _ _ _) fun _ _ _ h => h.setCursor _

end Pool

namespace Heap

variable {heap : Heap A} {other : Heap B}

/-- The same heap over related arenas. -/
structure Related (R : A → B → Prop) (heap : Heap A) (other : Heap B) : Prop where
  pool : Pool.Related R heap.pool other.pool
  config : heap.config = other.config
  arenaUnits : heap.arenaUnits = other.arenaUnits
  extensions : heap.extensions = other.extensions

theorem Related.eq {heap other : Heap A} (h : Related Eq heap other) : heap = other := by
  obtain ⟨⟨arena, list⟩, config, units, extensions⟩ := h
  rcases heap with ⟨⟨_, _⟩, _, _, _⟩
  rcases other with ⟨⟨_, _⟩, _, _, _⟩
  cases arena
  cases list
  cases config
  cases units
  cases extensions
  rfl

theorem Related.new {arena : A} {arena' : B} (related : R arena arena') (config : HeapConfig) :
    Related R (new arena config) (new arena' config) :=
  ⟨⟨related, rfl⟩, rfl, rfl, rfl⟩

theorem Related.inPool {op : Op (Pool A) α} {op' : Op (Pool B) α} (h : Related R heap other)
    (agrees : op.Agrees (Pool.Related R') op' heap.pool other.pool) :
    (inPool op).Agrees (Related R') (inPool op') heap other :=
  agrees.on fun _ _ related => ⟨related, h.config, h.arenaUnits, h.extensions⟩

theorem Related.countExtension (h : Related R heap other) (units : Nat) :
    (countExtension units).Agrees (Related R) (countExtension units) heap other := by
  apply Op.Agrees.bind_state
  rw [h.arenaUnits, h.extensions]
  apply Op.Agrees.bind (.ofExcept h _)
  intro arenaUnits _ _ h
  apply Op.Agrees.bind (.update { h with arenaUnits := rfl })
  intro _ _ _ h
  apply Op.Agrees.bind (.ofExcept h _)
  intro extensions _ _ h
  exact .update { h with extensions := rfl }

variable [Arena A] [Arena B]

theorem Related.requestMemory {bytes : Nat} (h : Related R heap other) (units : Nat)
    (asked : (Arena.extend bytes).Agrees R' (Arena.extend bytes) heap.arena other.arena) :
    (requestMemory units bytes).Agrees (Related R') (requestMemory units bytes) heap other :=
  .reportRefusal _ (h.inPool (h.pool.inArena asked))

/-- It is enough that the arenas grow alike by what is asked for. -/
theorem Related.extend_asked {needed bytes : Nat} (arenas' : Arena.StoresAlike R')
    (h : Related R heap other)
    (product : Size.mul? (max needed heap.config.minExtensionUnits) (Arena.unit A) = some bytes)
    (asked : (Arena.extend bytes).Agrees R' (Arena.extend bytes) heap.arena other.arena) :
    (extend needed).Agrees (Related R') (extend needed) heap other := by
  apply Op.Agrees.bind_state
  rw [h.config, arenas'.unit] at product ⊢
  simp only [product]
  apply Op.Agrees.bind (h.requestMemory _ asked)
  intro base _ _ h
  apply Op.Agrees.bind (.report h _)
  intro _ _ _ h
  apply Op.Agrees.bind (h.countExtension _)
  intro _ _ _ h
  apply Op.Agrees.bind (h.inPool (h.pool.inArena (arenas'.store h.pool.arena _ _)))
  intro _ _ _ h
  exact h.inPool (h.pool.insert arenas' _)

theorem Related.extend_unasked {needed : Nat} (arenas : Arena.StoresAlike R)
    (h : Related R heap other)
    (product : Size.mul? (max needed heap.config.minExtensionUnits) (Arena.unit A) = none) :
    (extend needed).Agrees (Related R) (extend needed) heap other := by
  apply Op.Agrees.bind_state
  rw [h.config, arenas.unit] at product ⊢
  simp only [product]
  exact .fail h _

section Related

variable (arenas : Arena.Related R)

include arenas

theorem Related.extend (h : Related R heap other) (needed : Nat) :
    (extend needed).Agrees (Related R) (extend needed) heap other := by
  cases product : Size.mul? (max needed heap.config.minExtensionUnits) (Arena.unit A) with
  | none => exact h.extend_unasked arenas.toStoresAlike product
  | some bytes =>
      exact h.extend_asked arenas.toStoresAlike product (arenas.extend h.pool.arena _)

theorem Related.acquire (h : Related R heap other) (units rounds : Nat) :
    (acquire units rounds).Agrees (Related R) (acquire units rounds) heap other := by
  induction rounds generalizing heap other with
  | zero => exact .fail h _
  | succ rounds ih =>
      apply Op.Agrees.bind (h.inPool (h.pool.take arenas.toStoresAlike _))
      intro found _ _ h
      cases found with
      | some block => exact .pure h _
      | none => exact .bind (h.extend arenas _) fun _ _ _ h => ih h

theorem Related.allocate (h : Related R heap other) (size : Nat) :
    (allocate size).Agrees (Related R) (allocate size) heap other := by
  unfold Heap.allocate
  rw [arenas.unit]
  apply Op.Agrees.bind (.ofExcept h _)
  intro wanted _ _ h
  split
  · apply Op.Agrees.bind (.report h _)
    intro _ _ _ h
    exact .bind (h.acquire arenas _ _) fun _ _ _ h => .ofExcept h _
  · exact .fail h _

end Related

variable (arenas : Arena.StoresAlike R)

include arenas

theorem Related.deallocate (h : Related R heap other) (address : Nat) :
    (deallocate address).Agrees (Related R) (deallocate address) heap other := by
  unfold Heap.deallocate
  rw [arenas.unit]
  refine .bind (.ofExcept h _) fun block _ _ h => .bind_state ?_
  apply Op.Agrees.bind (.require h _ (by rw [arena, arenas.contains h.pool.arena]; rfl))
  intro _ _ _ h
  exact .bind (.report h _) fun _ _ _ h => h.inPool (h.pool.insert arenas _)

theorem Related.fill (h : Related R heap other) (address : Nat) (value : UInt8) (count : Nat) :
    (fill address value count).Agrees (Related R) (fill address value count) heap other := by
  apply Op.Agrees.bind_state
  apply Op.Agrees.bind (.require h _ (by rw [arena, arenas.contains h.pool.arena]; rfl))
  intro _ _ _ h
  exact h.inPool (h.pool.inArena (arenas.fill h.pool.arena _ _ _))

theorem Related.freeBlocks (h : Related R heap other) : heap.freeBlocks = other.freeBlocks :=
  h.pool.blocks arenas

theorem Related.stats (h : Related R heap other) : heap.stats = other.stats := by
  simp only [Heap.stats, h.freeBlocks arenas, h.arenaUnits, h.extensions]

end Heap

end NextFit
