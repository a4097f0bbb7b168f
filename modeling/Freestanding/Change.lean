/-!
# Changes

Changing a state step by step, with a record of what was done.

A change is run on a state and leaves one. It may stop early, and then the
state it leaves is the one it had reached: what was written before it stopped
stays written. The records it wrote stay as well. That is why the state and
the records are beside the result in an `Outcome` and not inside it.

The records of a change are its own. Running one change after another puts the
records of the second behind those of the first, so what an operation reports
can be stated without mentioning what was reported before.

## Main definitions

* `Outcome`: What a change leaves.
* `Change`: A change of a state that may stop and that keeps records.
* `Change.state`, `Change.update`: Reading and replacing the state.
* `Change.emit`: Writing a record.
* `Change.stop`: Ending early.
* `Change.ofExcept`: Ending early unless there is a value.

## Theorems

* `Change.bind_of_ok`: What follows a change that answered.
* `Change.bind_of_error`: Nothing follows a change that stopped.
* `Change.bind_congr_at`, `Change.bind_congr_of_ok`: Changes that do the same to
  a state.
* `Change.state_bind`: What follows reading the state.
-/

namespace Freestanding

/-- What a change leaves: its result, the state it reached, and the records
    it wrote, in order. -/
structure Outcome (ρ ε σ α : Type) where
  /-- The answer, or the reason for stopping. -/
  result : Except ε α
  /-- The state reached. -/
  state : σ
  /-- The records written, first one first. -/
  log : List ρ

/-- A change of a state of type `σ` that answers in `α` or stops with a reason
    in `ε`, writing records of type `ρ`. -/
def Change (ρ ε σ α : Type) : Type :=
  σ → Outcome ρ ε σ α

namespace Change

variable {ρ ε σ α β : Type}

/-- Answers at once. -/
def answer (a : α) : Change ρ ε σ α :=
  fun s => ⟨.ok a, s, []⟩

/-- Runs `x`, and if it answered, what follows that answer. -/
def andThen (x : Change ρ ε σ α) (f : α → Change ρ ε σ β) : Change ρ ε σ β :=
  fun s => match x s with
    | ⟨.ok a, t, log⟩ => { f a t with log := log ++ (f a t).log }
    | ⟨.error e, t, log⟩ => ⟨.error e, t, log⟩

instance : Monad (Change ρ ε σ) where
  pure := answer
  bind := andThen

/-- Answers the state. -/
def state : Change ρ ε σ σ :=
  fun s => ⟨.ok s, s, []⟩

/-- Replaces the state. -/
def update (f : σ → σ) : Change ρ ε σ Unit :=
  fun s => ⟨.ok (), f s, []⟩

/-- Writes a record. -/
def emit (r : ρ) : Change ρ ε σ Unit :=
  fun s => ⟨.ok (), s, [r]⟩

/-- Stops, for a reason. -/
def stop (e : ε) : Change ρ ε σ α :=
  fun s => ⟨.error e, s, []⟩

/-- Answers a value, or stops for the reason there is none. -/
def ofExcept (x : Except ε α) : Change ρ ε σ α :=
  fun s => ⟨x, s, []⟩

@[simp] theorem pure_apply (a : α) (s : σ) :
    (pure a : Change ρ ε σ α) s = ⟨.ok a, s, []⟩ := rfl

@[simp] theorem emit_apply (r : ρ) (s : σ) :
    (emit r : Change ρ ε σ Unit) s = ⟨.ok (), s, [r]⟩ := rfl

/-- What follows a change that answered runs on the state it reached, and its
    records come behind. -/
theorem bind_of_ok {x : Change ρ ε σ α} {f : α → Change ρ ε σ β} {s t : σ} {a : α}
    {log : List ρ} (h : x s = ⟨.ok a, t, log⟩) :
    (x >>= f) s = { f a t with log := log ++ (f a t).log } := by
  show andThen x f s = _
  rw [andThen, h]

/-- Nothing follows a change that stopped. -/
theorem bind_of_error {x : Change ρ ε σ α} {f : α → Change ρ ε σ β} {s t : σ} {e : ε}
    {log : List ρ} (h : x s = ⟨.error e, t, log⟩) :
    (x >>= f) s = ⟨.error e, t, log⟩ := by
  show andThen x f s = _
  rw [andThen, h]

/-- Changes that do the same to a state do the same with what follows, if that
    does the same to what they leave. -/
theorem bind_congr_at {x y : Change ρ ε σ α} {f g : α → Change ρ ε σ β} {s : σ}
    (hxy : x s = y s) (hfg : ∀ a t log, y s = ⟨.ok a, t, log⟩ → f a t = g a t) :
    (x >>= f) s = (y >>= g) s := by
  rcases hy : y s with ⟨e | a, t, log⟩
  · rw [bind_of_error (hxy.trans hy), bind_of_error hy]
  · rw [bind_of_ok (hxy.trans hy), bind_of_ok hy, hfg a t log hy]

/-- If the answer is known, only what follows that answer has to do the same. -/
theorem bind_congr_of_ok {x y : Change ρ ε σ α} {f g : α → Change ρ ε σ β} {s t : σ} {a : α}
    {log : List ρ} (hxy : x s = y s) (hy : y s = ⟨.ok a, t, log⟩) (hfg : f a t = g a t) :
    (x >>= f) s = (y >>= g) s := by
  rw [bind_of_ok (hxy.trans hy), bind_of_ok hy, hfg]

/-- What follows reading the state gets it and finds it unchanged. -/
theorem state_bind (f : σ → Change ρ ε σ β) (s : σ) :
    ((state : Change ρ ε σ σ) >>= f) s = f s s := rfl

instance : LawfulMonad (Change ρ ε σ) := by
  refine LawfulMonad.mk' (Change ρ ε σ) ?_ ?_ ?_
  · intro α x
    funext s
    show andThen x (fun a => answer (id a)) s = x s
    rw [andThen]
    rcases x s with ⟨_ | a, t, log⟩
    · rfl
    · simp only [answer, id, List.append_nil]
  · intro α β a f
    rfl
  · intro α β γ x f g
    funext s
    show andThen (andThen x f) g s = andThen x (fun a => andThen (f a) g) s
    simp only [andThen]
    rcases x s with ⟨_ | a, t, log⟩
    · rfl
    · dsimp only
      rcases f a t with ⟨_ | b, u, log'⟩
      · rfl
      · simp only [List.append_assoc]

end Change

end Freestanding
