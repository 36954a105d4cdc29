/-!
# Outcomes of computations

Readers of programs and evaluations are computations of the same shape: they
change a state, and end with a result or with a reason to stop. What is needed
to reason about either is the same, too: how the outcome of two computations,
one after the other, follows from theirs, and what is true of every result.

A computation **yields** values with a property (`Yields`) if every result of
it has the property, wherever it starts.
-/

namespace Garnet

variable {ε σ α β : Type}

namespace Outcome

/-- The state that the end of a computation leaves behind. -/
def state : EStateM.Result ε σ α → σ
  | .ok _ s => s
  | .error _ s => s

/-- An outcome whose state is changed afterwards. -/
def mapState (f : σ → σ) : EStateM.Result ε σ α → EStateM.Result ε σ α
  | .ok a s => .ok a (f s)
  | .error e s => .error e (f s)

@[simp] theorem state_mapState (f : σ → σ) (o : EStateM.Result ε σ α) :
    state (mapState f o) = f (state o) := by
  cases o with
  | ok a s => rfl
  | error e s => rfl

/-- The result stays the same. -/
theorem ok_of_mapState {f : σ → σ} {o : EStateM.Result ε σ α} {a : α} {t : σ}
    (h : mapState f o = .ok a t) : ∃ s, o = .ok a s := by
  cases o with
  | ok a' s =>
    cases h
    exact ⟨s, rfl⟩
  | error e s => cases h

/-- The reason to stop stays the same. -/
theorem error_of_mapState {f : σ → σ} {o : EStateM.Result ε σ α} {e : ε} {t : σ}
    (h : mapState f o = .error e t) : ∃ s, o = .error e s := by
  cases o with
  | ok a s => cases h
  | error e' s =>
    cases h
    exact ⟨s, rfl⟩

section Bind

variable {m : EStateM ε σ α} {f : α → EStateM ε σ β} {s t : σ}

/-- What follows a result goes on where that was reached. -/
theorem bind_of_ok {a : α} (h : m s = .ok a t) : (m >>= f) s = f a t := by
  show EStateM.bind m f s = _
  unfold EStateM.bind
  rw [h]

/-- Nothing follows where a computation stops. -/
theorem bind_of_error {e : ε} (h : m s = .error e t) : (m >>= f) s = .error e t := by
  show EStateM.bind m f s = _
  unfold EStateM.bind
  rw [h]

/-- **A result of two computations** is one of the second, after a result of the
first. -/
theorem ok_of_bind {b : β} (h : (m >>= f) s = .ok b t) :
    ∃ a u, m s = .ok a u ∧ f a u = .ok b t := by
  cases hm : m s with
  | ok a u =>
    rw [bind_of_ok hm] at h
    exact ⟨a, u, rfl, h⟩
  | error e u =>
    rw [bind_of_error hm] at h
    cases h

/-- What follows depends on the outcome only. -/
theorem bind_congr_outcome {m' : EStateM ε σ α} (h : m s = m' t) :
    (m >>= f) s = (m' >>= f) t := by
  show EStateM.bind m f s = EStateM.bind m' f t
  unfold EStateM.bind
  rw [h]

/-- Looking at the state leaves it as it is. -/
theorem get_bind (f : σ → EStateM ε σ α) (s : σ) : (get >>= f) s = f s s := rfl

end Bind

end Outcome

/-- **Whether every result of a computation has a property.** -/
def Yields (m : EStateM ε σ α) (P : α → Prop) : Prop :=
  ∀ s a t, m s = .ok a t → P a

namespace Yields

variable {P : α → Prop} {Q : β → Prop} {m : EStateM ε σ α} {f : α → EStateM ε σ β}

theorem pure {a : α} (h : P a) : Yields (Pure.pure a : EStateM ε σ α) P := by
  intro s b t hs
  cases hs
  exact h

/-- A computation that always stops has no results. -/
theorem of_throw (e : ε) : Yields (throw e : EStateM ε σ α) P := by
  intro s a t hs
  cases hs

/-- **One computation after another.** -/
theorem bind (hm : Yields m P) (hf : ∀ a, P a → Yields (f a) Q) : Yields (m >>= f) Q := by
  intro s b u hs
  cases hms : m s with
  | ok a t =>
    rw [Outcome.bind_of_ok hms] at hs
    exact hf a (hm s a t hms) t b u hs
  | error e t =>
    rw [Outcome.bind_of_error hms] at hs
    cases hs

/-- A computation whose result does not matter to what follows. -/
theorem after (hf : ∀ a, Yields (f a) Q) : Yields (m >>= f) Q :=
  bind (P := fun _ => True) (fun _ _ _ _ => trivial) fun a _ => hf a

/-- A condition chooses between two computations. -/
theorem ite {c : Prop} [Decidable c] {n : EStateM ε σ α} (hm : c → Yields m P)
    (hn : ¬c → Yields n P) : Yields (if c then m else n) P := by
  split
  · next h => exact hm h
  · next h => exact hn h

end Yields

end Garnet
