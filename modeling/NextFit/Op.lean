import NextFit.Event

/-! # Operations

An operation works on a state, reports events, and ends with a value or a failure. A failure does
not undo anything: the state that comes with it holds whatever was changed before. The events are
an output only, so no operation can depend on them.
-/

namespace NextFit

/-- What one run of an operation leaves behind. -/
structure Outcome (σ α : Type) where
  result : Except Failure α
  state : σ
  events : List Event := []

/-- Put earlier events in front. -/
def Outcome.after {σ α : Type} (earlier : List Event) (outcome : Outcome σ α) : Outcome σ α :=
  { outcome with events := earlier ++ outcome.events }

/-- A step from a state to an outcome. -/
def Op (σ α : Type) : Type :=
  σ → Outcome σ α

namespace Op

variable {σ τ α β : Type}

def run (op : Op σ α) (state : σ) : Outcome σ α :=
  op state

protected def pure (value : α) : Op σ α :=
  fun state => { result := .ok value, state }

/-- Go on with the value of the first operation; a failure of it ends both. -/
protected def bind (op : Op σ α) (next : α → Op σ β) : Op σ β := fun state =>
  match op state with
  | ⟨.ok value, changed, events⟩ => (next value changed).after events
  | ⟨.error failure, changed, events⟩ => ⟨.error failure, changed, events⟩

instance : Monad (Op σ) where
  pure := Op.pure
  bind := Op.bind

def fail (failure : Failure) : Op σ α :=
  fun state => { result := .error failure, state }

def refuse (reason : Refusal) : Op σ α :=
  fail (.refused reason)

/-- Give up because a check failed. -/
def fault (fault : Fault) : Op σ α :=
  fail (.faulted fault)

/-- Give up unless a condition holds. -/
def require (condition : Prop) [Decidable condition] (otherwise : Fault) : Op σ Unit :=
  if condition then pure () else fault otherwise

def report (event : Event) : Op σ Unit :=
  fun state => { result := .ok (), state, events := [event] }

/-- A computation that only may fault, as an operation. -/
def ofExcept : Except Fault α → Op σ α
  | .ok value => pure value
  | .error cause => fault cause

instance : MonadLift (Except Fault) (Op σ) where
  monadLift := ofExcept

def state : Op σ σ :=
  fun state => { result := .ok state, state }

/-- What can be read off the current state without changing it. -/
def query (read : σ → Except Fault α) : Op σ α :=
  fun state => ofExcept (read state) state

def update (change : σ → σ) : Op σ Unit :=
  fun state => { result := .ok (), state := change state }

/-- Work on a part of a larger state and put the changed part back, also after a failure. -/
def on (part : σ → τ) (replace : σ → τ → σ) (op : Op τ α) : Op σ α := fun state =>
  let outcome := op (part state)
  { result := outcome.result, state := replace state outcome.state, events := outcome.events }

/-- Report an event when the operation is refused. -/
def reportRefusal (event : Refusal → Event) (op : Op σ α) : Op σ α := fun state =>
  let outcome := op state
  match outcome.result with
  | .error (.refused reason) => { outcome with events := outcome.events ++ [event reason] }
  | _ => outcome

/-- An operation that succeeds hands over to the next one, whose events follow its own. -/
theorem bind_of_ok {op : Op σ α} {next : α → Op σ β} {s changed : σ} {value : α}
    {events : List Event} (h : op s = ⟨.ok value, changed, events⟩) :
    (op >>= next) s = (next value changed).after events := by
  show Op.bind op next s = _
  simp only [Op.bind, h]

/-- What follows a failure is not run. -/
theorem bind_of_error {op : Op σ α} {next : α → Op σ β} {s changed : σ} {failure : Failure}
    {events : List Event} (h : op s = ⟨.error failure, changed, events⟩) :
    (op >>= next) s = ⟨.error failure, changed, events⟩ := by
  show Op.bind op next s = _
  simp only [Op.bind, h]

private theorem map_id_apply (op : Op σ α) : id <$> op = op := by
  funext state
  show Op.bind op (fun value => Op.pure value) state = op state
  cases first : op state with
  | mk result changed events =>
      cases result <;> simp [Op.bind, first, Op.pure, Outcome.after]

private theorem bind_assoc_apply {γ : Type} (op : Op σ α) (next : α → Op σ β) (last : β → Op σ γ) :
    op >>= next >>= last = op >>= fun value => next value >>= last := by
  funext state
  show Op.bind (Op.bind op next) last state =
    Op.bind op (fun value => Op.bind (next value) last) state
  cases first : op state with
  | mk result changed events =>
      cases result with
      | error failure => simp [Op.bind, first]
      | ok value =>
          cases second : next value changed with
          | mk result changed' events' =>
              cases result <;> simp [Op.bind, Outcome.after, first, second, List.append_assoc]

instance : LawfulMonad (Op σ) :=
  LawfulMonad.mk' (Op σ) map_id_apply (fun _ _ => rfl) bind_assoc_apply

end Op

end NextFit
