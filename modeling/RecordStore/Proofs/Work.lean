import Mathlib.Tactic.Lemma
import RecordStore.Database

/-!
# Performing work

What a piece of work gives when it is performed on a state: a chain of steps goes on with the state
that the step before has left, and ends at the first fault, with the state as it is then.
-/

namespace RecordStore.Work

variable {σ α β : Type}

/-- Work that depends on a result alone gives this result, and the state stays. -/
@[simp] lemma perform_ofExcept (result : Except Fault α) (state : σ) :
    perform (ofExcept result : Work σ α) state = (result, state) := rfl

/-- A chain of two steps goes on from the state after the first one, unless it ends with a fault. -/
lemma perform_bind (work : Work σ α) (next : α → Work σ β) (state : σ) :
    perform (work >>= next) state =
      match perform work state with
      | (.ok a, after) => perform (next a) after
      | (.error fault, after) => (.error fault, after) := by
  simp only [perform, ExceptT.run, StateT.run, bind, ExceptT.bind, ExceptT.mk, StateT.bind]
  cases work state with
  | mk result after => cases result <;> rfl

/-- A step after a successful one goes on from the state that this one has left. -/
lemma perform_bind_ok {work : Work σ α} {state after : σ} {a : α}
    (h : perform work state = (.ok a, after)) (next : α → Work σ β) :
    perform (work >>= next) state = perform (next a) after := by
  rw [perform_bind, h]

/-- A fault ends a chain of steps. -/
lemma perform_bind_error {work : Work σ α} {state after : σ} {fault : Fault}
    (h : perform work state = (.error fault, after)) (next : α → Work σ β) :
    perform (work >>= next) state = (.error fault, after) := by
  rw [perform_bind, h]

/-- If what follows a step keeps every state, the chain ends in the state that the step has left. -/
lemma perform_bind_snd (work : Work σ α) {next : α → Work σ β}
    (hnext : ∀ a after, (perform (next a) after).2 = after) (state : σ) :
    (perform (work >>= next) state).2 = (perform work state).2 := by
  rw [perform_bind]
  cases perform work state with
  | mk result after =>
    cases result with
    | ok a => exact hnext a after
    | error fault => rfl

/-- A fault is handled in the state in which it has left things. -/
lemma perform_tryCatch (work : Work σ α) (handle : Fault → Work σ α) (state : σ) :
    perform (tryCatch work handle) state =
      match perform work state with
      | (.ok a, after) => (.ok a, after)
      | (.error fault, after) => perform (handle fault) after := by
  simp only [perform, ExceptT.run, StateT.run, tryCatch, tryCatchThe, MonadExceptOf.tryCatch,
    ExceptT.tryCatch, ExceptT.mk, bind, StateT.bind]
  cases work state with
  | mk result after => cases result <;> rfl

end RecordStore.Work
