import CountTree.Run

/-!
Steps one after the other. If the first of two steps fails, so do both, and the second is not taken
(`Run.bind_of_error`); otherwise the second goes on from the state that the first has left
(`Run.bind_of_ok`). What becomes of the value of a step does not matter for the state after it. A
step on two states that changes the first of them last, when nothing can fail any more, is a step on
the second (`Outcome.commit`).
-/

set_option autoImplicit false
set_option relaxedAutoImplicit false

namespace CountTree

/-- The outcome for two states of a step on the second, where the first changes if the step
succeeds. -/
def Outcome.commit {ε σ τ α β : Type} (old new : σ) (value : β) :
    Outcome ε τ α → Outcome ε (σ × τ) β
  | .ok _ state => .ok value (new, state)
  | .error cause state => .error cause (old, state)

namespace Run

variable {ε σ α β : Type} {x : Run ε σ α} {f : α → Run ε σ β} {s s' : σ}

theorem bind_of_ok {value : α} (h : x s = .ok value s') : (x >>= f) s = f value s' := by
  change EStateM.bind x f s = f value s'
  rw [EStateM.bind, h]

theorem bind_of_error {cause : ε} (h : x s = .error cause s') :
    (x >>= f) s = .error cause s' := by
  change EStateM.bind x f s = .error cause s'
  rw [EStateM.bind, h]

theorem map_of_ok {g : α → β} {value : α} (h : x s = .ok value s') :
    (g <$> x) s = .ok (g value) s' := by
  change EStateM.map g x s = .ok (g value) s'
  rw [EStateM.map, h]

theorem map_of_error {g : α → β} {cause : ε} (h : x s = .error cause s') :
    (g <$> x) s = .error cause s' := by
  change EStateM.map g x s = .error cause s'
  rw [EStateM.map, h]

theorem get_bind (f : σ → Run ε σ α) (s : σ) : (get >>= f) s = f s s := rfl

theorem state_map (g : α → β) (x : Run ε σ α) (s : σ) :
    Outcome.state ((g <$> x) s) = Outcome.state (x s) := by
  rcases hx : x s with ⟨value, s'⟩ | ⟨cause, s'⟩
  · rw [map_of_ok hx]
    rfl
  · rw [map_of_error hx]
    rfl

theorem onSnd_of_ok {τ : Type} {value : α} (h : x s = .ok value s') (first : τ) :
    onSnd x (first, s) = .ok value (first, s') := by
  rw [onSnd, onPart, h]
  rfl

theorem onSnd_of_error {τ : Type} {cause : ε} (h : x s = .error cause s') (first : τ) :
    onSnd x (first, s) = .error cause (first, s') := by
  rw [onSnd, onPart, h]
  rfl

theorem onFst_of_ok {τ : Type} {value : α} (h : x s = .ok value s') (second : τ) :
    onFst x (s, second) = .ok value (s', second) := by
  rw [onFst, onPart, h]
  rfl

theorem onFst_of_error {τ : Type} {cause : ε} (h : x s = .error cause s') (second : τ) :
    onFst x (s, second) = .error cause (s', second) := by
  rw [onFst, onPart, h]
  rfl

/-- A step on the second state, with a value that does not depend on it. -/
theorem onSnd_eq_commit {τ : Type} {plain : Run ε σ β} {value : α}
    (h : x = (fun _ ↦ value) <$> plain) (first : τ) (second : σ) :
    onSnd x (first, second) = Outcome.commit first first value (plain second) := by
  rw [h]
  rcases hplain : plain second with ⟨_, next⟩ | ⟨cause, next⟩
  · exact onSnd_of_ok (map_of_ok hplain) first
  · exact onSnd_of_error (map_of_error hplain) first

/-- Of two steps on two states only the second changes the first state. -/
theorem bind_eq_commit {τ : Type} {step : Run ε (τ × σ) α} {next : α → Run ε (τ × σ) β}
    {plain plain' : Run ε σ Unit} {value : α} {result : β} {first first' : τ} {second : σ}
    (hstep : step (first, second) = Outcome.commit first first value (plain second))
    (hnext : ∀ middle, next value (first, middle) =
      Outcome.commit first first' result (plain' middle)) :
    (step >>= next) (first, second) =
      Outcome.commit first first' result ((plain >>= fun _ ↦ plain') second) := by
  rcases hplain : plain second with ⟨_, middle⟩ | ⟨cause, middle⟩ <;> rw [hplain] at hstep
  · rw [bind_of_ok hstep, bind_of_ok hplain]
    exact hnext middle
  · rw [bind_of_error hstep, bind_of_error hplain]
    rfl

/-- Two steps succeed if the first does and the second does with its value. -/
theorem bind_eq_ok {value : β} (h : (x >>= f) s = .ok value s') :
    ∃ first middle, x s = .ok first middle ∧ f first middle = .ok value s' := by
  rcases hx : x s with ⟨first, middle⟩ | ⟨cause, middle⟩
  · rw [bind_of_ok hx] at h
    exact ⟨first, middle, rfl, h⟩
  · rw [bind_of_error hx] at h
    cases h

/-- A failure of two steps is one of the first or one of the second. -/
theorem bind_eq_error {cause : ε} (h : (x >>= f) s = .error cause s') :
    x s = .error cause s' ∨ ∃ value middle, x s = .ok value middle ∧
      f value middle = .error cause s' := by
  rcases hx : x s with ⟨value, middle⟩ | ⟨other, middle⟩
  · rw [bind_of_ok hx] at h
    exact .inr ⟨value, middle, rfl, h⟩
  · rw [bind_of_error hx] at h
    cases h
    exact .inl rfl

theorem mapError_bind {δ : Type} (g : ε → δ) (x : Run ε σ α) (f : α → Run ε σ β) :
    mapError g (x >>= f) = mapError g x >>= fun value ↦ mapError g (f value) := by
  funext s
  rcases hx : x s with ⟨value, s'⟩ | ⟨cause, s'⟩
  · have hleft : mapError g x s = .ok value s' := by rw [mapError, hx]; rfl
    rw [mapError, bind_of_ok hx, bind_of_ok hleft, mapError]
  · have hleft : mapError g x s = .error (g cause) s' := by rw [mapError, hx]; rfl
    rw [mapError, bind_of_error hx, bind_of_error hleft]
    rfl

theorem mapError_map {δ : Type} (g : ε → δ) (h : α → β) (x : Run ε σ α) :
    mapError g (h <$> x) = h <$> mapError g x := by
  funext s
  rcases hx : x s with ⟨value, s'⟩ | ⟨cause, s'⟩
  · have hleft : mapError g x s = .ok value s' := by rw [mapError, hx]; rfl
    rw [mapError, map_of_ok hx, map_of_ok hleft]
    rfl
  · have hleft : mapError g x s = .error (g cause) s' := by rw [mapError, hx]; rfl
    rw [mapError, map_of_error hx, map_of_error hleft]
    rfl

end Run

/-- Two computations succeed if the first does and the second does with its value. -/
theorem bind_eq_ok_iff {ε α β : Type} {x : Except ε α} {f : α → Except ε β} {result : β} :
    (x >>= f) = .ok result ↔ ∃ value, x = .ok value ∧ f value = .ok result := by
  rcases x with cause | value
  · constructor
    · intro h
      cases h
    · rintro ⟨value, hvalue, -⟩
      cases hvalue
  · constructor
    · exact fun h ↦ ⟨value, rfl, h⟩
    · rintro ⟨other, hother, h⟩
      cases hother
      exact h

end CountTree
