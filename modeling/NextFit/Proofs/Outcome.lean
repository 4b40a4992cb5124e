import NextFit.Op

/-! # How operations end

`op.Yields s result t` leaves the events of a run aside: from `s`, the operation ends with `result`
in the state `t`. An operation that is built from others is run step by step, with one lemma for
each building block; a failure ends the run where it stands. `op.Matches R s t` compares two runs of
one operation in the same way. `op.Preserves R` and `op.Avoids fault` are about all runs: where they
lead, and how they never end.
-/

namespace NextFit.Failure

variable {α β : Type} {failure : Failure} {fault : Fault}

/-- A computation that can only fault does not end with this failure. -/
def NotBy (failure : Failure) (computation : Except Fault α) : Prop :=
  ∀ fault, computation = .error fault → failure ≠ .faulted fault

theorem NotBy.ok (value : α) : failure.NotBy (.ok value) :=
  fun _ => nofun

theorem NotBy.error (other : failure ≠ .faulted fault) :
    failure.NotBy (.error fault : Except Fault α) := by
  intro _ same
  cases same
  exact other

theorem NotBy.bind {first : Except Fault α} {next : α → Except Fault β} (h : failure.NotBy first)
    (rest : ∀ value, failure.NotBy (next value)) : failure.NotBy (first >>= next) := by
  cases first with
  | ok value => exact rest value
  | error fault => exact .error (h fault rfl)

end NextFit.Failure

namespace NextFit.Op

variable {σ τ α β : Type} {s t u : σ}

/-- From `s`, the operation ends with `result` in the state `t`, whatever it reports. -/
def Yields (op : Op σ α) (s : σ) (result : Except Failure α) (t : σ) : Prop :=
  (op s).result = result ∧ (op s).state = t

theorem yields_run (op : Op σ α) (s : σ) : op.Yields s (op s).result (op s).state :=
  ⟨rfl, rfl⟩

/-- What succeeds has succeeded in each of its steps. -/
theorem exists_of_bind_ok {op : Op σ α} {next : α → Op σ β} {result : β}
    (h : ((op >>= next) s).result = .ok result) :
    ∃ value, (op s).result = .ok value ∧ (next value (op s).state).result = .ok result := by
  cases ended : op s with
  | mk first changed events =>
      cases first with
      | ok value =>
          rw [bind_of_ok ended] at h
          exact ⟨value, rfl, h⟩
      | error failure =>
          rw [bind_of_error ended] at h
          cases h

namespace Yields

theorem pure (value : α) : (Pure.pure value : Op σ α).Yields s (.ok value) s :=
  ⟨rfl, rfl⟩

theorem bind {op : Op σ α} {next : α → Op σ β} {value : α} {result : Except Failure β}
    (first : op.Yields s (.ok value) t) (rest : (next value).Yields t result u) :
    (op >>= next).Yields s result u := by
  obtain ⟨ok, rfl⟩ := first
  have h : op s = ⟨.ok value, (op s).state, (op s).events⟩ := by rw [← ok]
  rw [Yields, bind_of_ok h]
  exact rest

theorem bind_error {op : Op σ α} {next : α → Op σ β} {failure : Failure}
    (first : op.Yields s (.error failure) t) : (op >>= next).Yields s (.error failure) t := by
  obtain ⟨failed, rfl⟩ := first
  have h : op s = ⟨.error failure, (op s).state, (op s).events⟩ := by rw [← failed]
  rw [Yields, bind_of_error h]
  exact ⟨rfl, rfl⟩

/-- What succeeds has come from state to state in each of its steps. -/
theorem exists_of_bind {op : Op σ α} {next : α → Op σ β} {result : β}
    (h : (op >>= next).Yields s (.ok result) u) :
    ∃ value t, op.Yields s (.ok value) t ∧ (next value).Yields t (.ok result) u := by
  cases ended : op s with
  | mk first changed events =>
      cases first with
      | ok value =>
          rw [Yields, bind_of_ok ended] at h
          exact ⟨value, changed, ⟨congrArg _ ended, congrArg _ ended⟩, h⟩
      | error failure =>
          rw [Yields, bind_of_error ended] at h
          cases h.1

theorem unique {op : Op σ α} {result result' : Except Failure α} (h : op.Yields s result t)
    (h' : op.Yields s result' u) : result = result' ∧ t = u :=
  ⟨h.1.symm.trans h'.1, h.2.symm.trans h'.2⟩

theorem refuse (reason : Refusal) :
    (Op.refuse reason : Op σ α).Yields s (.error (.refused reason)) s :=
  ⟨rfl, rfl⟩

theorem report (event : Event) : (Op.report event : Op σ Unit).Yields s (.ok ()) s :=
  ⟨rfl, rfl⟩

theorem state : (Op.state : Op σ σ).Yields s (.ok s) s :=
  ⟨rfl, rfl⟩

theorem update (change : σ → σ) : (Op.update change).Yields s (.ok ()) (change s) :=
  ⟨rfl, rfl⟩

theorem lift {computation : Except Fault α} {value : α} (h : computation = .ok value) :
    (liftM computation : Op σ α).Yields s (.ok value) s := by
  subst h
  exact ⟨rfl, rfl⟩

theorem query {read : σ → Except Fault α} {value : α} (h : read s = .ok value) :
    (Op.query read).Yields s (.ok value) s := by
  simp only [Yields, Op.query, h]
  exact ⟨rfl, rfl⟩

theorem require {condition : Prop} [Decidable condition] {otherwise : Fault} (h : condition) :
    (Op.require condition otherwise : Op σ Unit).Yields s (.ok ()) s := by
  simp only [Op.require, if_pos h]
  exact pure ()

theorem of_lift {computation : Except Fault α} {value : α}
    (h : (liftM computation : Op σ α).Yields s (.ok value) t) : computation = .ok value ∧ s = t := by
  cases computation with
  | ok known =>
      obtain ⟨⟨⟩, rfl⟩ := h.unique (.lift rfl)
      exact ⟨rfl, rfl⟩
  | error fault => cases h.1

theorem of_query {read : σ → Except Fault α} {value : α}
    (h : (Op.query read).Yields s (.ok value) t) : read s = .ok value ∧ s = t := by
  cases found : read s with
  | ok known =>
      obtain ⟨⟨⟩, rfl⟩ := h.unique (.query found)
      exact ⟨rfl, rfl⟩
  | error fault =>
      simp only [Yields, Op.query, found] at h
      cases h.1

theorem of_require {condition : Prop} [Decidable condition] {otherwise : Fault}
    (h : (Op.require condition otherwise : Op σ Unit).Yields s (.ok ()) t) : condition ∧ s = t := by
  unfold Op.require at h
  split at h
  case isTrue holds => exact ⟨holds, h.2⟩
  case isFalse => cases h.1

theorem require_not {condition : Prop} [Decidable condition] {otherwise : Fault}
    (h : ¬ condition) :
    (Op.require condition otherwise : Op σ Unit).Yields s (.error (.faulted otherwise)) s := by
  simp only [Op.require, if_neg h]
  exact ⟨rfl, rfl⟩

theorem on {part : σ → τ} {replace : σ → τ → σ} {op : Op τ α} {result : Except Failure α}
    {changed : τ} (h : op.Yields (part s) result changed) :
    (op.on part replace).Yields s result (replace s changed) := by
  obtain ⟨rfl, rfl⟩ := h
  exact ⟨rfl, rfl⟩

theorem reportRefusal {op : Op σ α} {event : Refusal → Event} {result : Except Failure α}
    (h : op.Yields s result t) : (op.reportRefusal event).Yields s result t := by
  obtain ⟨rfl, rfl⟩ := h
  simp only [Yields, Op.reportRefusal]
  split <;> exact ⟨rfl, rfl⟩

end Yields

/-- From `s` and from `t`, the operation ends with the same result, in states in `R`. -/
structure Matches (R : σ → σ → Prop) (op : Op σ α) (s t : σ) : Prop where
  result : (op s).result = (op t).result
  state : R (op s).state (op t).state

namespace Matches

variable {R : σ → σ → Prop} {op : Op σ α} {next : α → Op σ β}

theorem of_eq (reflexive : ∀ s, R s s) (h : op.Matches Eq s t) : op.Matches R s t :=
  ⟨h.result, h.state ▸ reflexive _⟩

theorem bind (first : op.Matches R s t)
    (rest : ∀ value s t, R s t → (next value).Matches R s t) : (op >>= next).Matches R s t := by
  obtain ⟨result, state⟩ := first
  cases left : op s with
  | mk ended changed reported =>
      cases right : op t with
      | mk ended' changed' reported' =>
          simp only [left, right] at result state
          subst result
          cases ended with
          | ok value =>
              have later := rest value changed changed' state
              constructor <;> rw [bind_of_ok left, bind_of_ok right]
              · exact later.result
              · exact later.state
          | error failure =>
              constructor <;> rw [bind_of_error left, bind_of_error right]
              exact state

/-- Once two runs are in the same state, they stay together. -/
theorem bind_eq (first : op.Matches Eq s t) : (op >>= next).Matches Eq s t :=
  first.bind fun _ _ _ same => same ▸ ⟨rfl, rfl⟩

/-- An operation may look at its state for what both states have. -/
theorem bind_state {next : σ → Op σ α} (same : next t = next s) (rest : (next s).Matches R s t) :
    (Op.state >>= next).Matches R s t :=
  ⟨rest.result.trans (congrArg (fun op => (op t).result) same.symm),
    show R (next s s).state (next t t).state from same ▸ rest.state⟩

theorem lift (related : R s t) (computation : Except Fault α) :
    (liftM computation : Op σ α).Matches R s t := by
  cases computation with
  | ok value => exact ⟨rfl, related⟩
  | error fault => exact ⟨rfl, related⟩

/-- What follows a computation only has to match for the value that there is. -/
theorem lift_bind {computation : Except Fault α} (related : R s t)
    (rest : ∀ value, computation = .ok value → (next value).Matches R s t) :
    ((liftM computation : Op σ α) >>= next).Matches R s t := by
  cases computation with
  | ok value => exact rest value rfl
  | error fault => exact ⟨rfl, related⟩

theorem require (related : R s t) (condition : Prop) [Decidable condition] (otherwise : Fault) :
    (Op.require condition otherwise).Matches R s t := by
  unfold Op.require
  split
  · exact ⟨rfl, related⟩
  · exact ⟨rfl, related⟩

end Matches

/-- From every state, the operation leads to one that is related to it, also when it fails. -/
def Preserves (R : σ → σ → Prop) (op : Op σ α) : Prop :=
  ∀ s, R s (op s).state

namespace Preserves

variable {R : σ → σ → Prop} {op : Op σ α} {next : α → Op σ β}

theorem bind (trans : ∀ {s t u}, R s t → R t u → R s u) (first : op.Preserves R)
    (rest : ∀ value, (next value).Preserves R) : (op >>= next).Preserves R := by
  intro s
  have before := first s
  cases ended : op s with
  | mk result changed events =>
      rw [ended] at before
      cases result with
      | ok value =>
          rw [bind_of_ok ended]
          exact trans before (rest value changed)
      | error failure =>
          rw [bind_of_error ended]
          exact before

theorem lift (refl : ∀ s, R s s) (computation : Except Fault α) :
    (liftM computation : Op σ α).Preserves R := by
  intro s
  cases computation <;> exact refl s

theorem require (refl : ∀ s, R s s) (condition : Prop) [Decidable condition] (otherwise : Fault) :
    (Op.require condition otherwise).Preserves R := by
  intro s
  unfold Op.require
  split <;> exact refl s

end Preserves

/-- From no state does the operation end with this failure. -/
def Avoids (failure : Failure) (op : Op σ α) : Prop :=
  ∀ s, (op s).result ≠ .error failure

namespace Avoids

variable {failure : Failure} {op : Op σ α} {next : α → Op σ β}

theorem pure (value : α) : (Pure.pure value : Op σ α).Avoids failure :=
  fun _ => nofun

theorem fail {other : Failure} (h : failure ≠ other) : (fail other : Op σ α).Avoids failure :=
  fun _ same => h (Except.error.inj same).symm

theorem report (event : Event) : (Op.report event : Op σ Unit).Avoids failure :=
  fun _ => nofun

theorem state : (Op.state : Op σ σ).Avoids failure :=
  fun _ => nofun

theorem update (change : σ → σ) : (Op.update change).Avoids failure :=
  fun _ => nofun

theorem bind (first : op.Avoids failure) (rest : ∀ value, (next value).Avoids failure) :
    (op >>= next).Avoids failure := by
  intro s
  have before := first s
  cases ended : op s with
  | mk result changed events =>
      rw [ended] at before
      cases result with
      | ok value =>
          rw [bind_of_ok ended]
          exact rest value changed
      | error failure =>
          rw [bind_of_error ended]
          exact fun same => before (congrArg Except.error (Except.error.inj same))

theorem lift {computation : Except Fault α} (h : failure.NotBy computation) :
    (liftM computation : Op σ α).Avoids failure := by
  intro s
  cases computation with
  | ok value => nofun
  | error fault => exact fun same => h fault rfl (Except.error.inj same).symm

theorem lift_bind {computation : Except Fault α} {value : α} (h : computation = .ok value)
    (rest : (next value).Avoids failure) :
    ((liftM computation : Op σ α) >>= next).Avoids failure := by
  subst h
  exact rest

theorem query {read : σ → Except Fault α} (h : ∀ s, failure.NotBy (read s)) :
    (Op.query read).Avoids failure :=
  fun s => lift (h s) s

theorem require {condition : Prop} [Decidable condition] {otherwise : Fault}
    (h : failure ≠ .faulted otherwise) :
    (Op.require condition otherwise : Op σ Unit).Avoids failure := by
  unfold Op.require
  split
  · exact pure ()
  · exact fail h

theorem on {part : σ → τ} {replace : σ → τ → σ} {op : Op τ α} (h : op.Avoids failure) :
    (op.on part replace).Avoids failure :=
  fun s => h (part s)

theorem reportRefusal {event : Refusal → Event} (h : op.Avoids failure) :
    (op.reportRefusal event).Avoids failure := by
  intro s
  simp only [Op.reportRefusal]
  split <;> exact h s

end Avoids

end NextFit.Op
