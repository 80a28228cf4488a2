import Treewalk.Machine.Loading

/-! # Outcomes of actions

An action succeeds or fails and leaves a state behind either way. These are the
outcomes of the combinators that actions are made of.
-/

namespace Treewalk

namespace Effect

variable {α β : Type} {x : Effect α} {f : α → Effect β} {s t u : State} {a a' : α} {b : β}

/-- The state that an action leaves behind, whether it succeeds or fails. -/
def after (act : Effect α) (s : State) : State :=
  match act s with
  | .ok _ t | .error _ t => t

/-- What comes of an action, without the state. -/
def outcome (act : Effect α) (s : State) : Except RunError α :=
  match act s with
  | .ok a _ => .ok a
  | .error e _ => .error e

theorem bind_ok (ok : x s = .ok a t) : (x >>= f) s = f a t := by
  change EStateM.bind x f s = _
  rw [EStateM.bind, ok]

theorem bind_error {e : RunError} (failed : x s = .error e t) : (x >>= f) s = .error e t := by
  change EStateM.bind x f s = _
  rw [EStateM.bind, failed]

/-- Only the outcome of the first action counts for the second. -/
theorem bind_congr {y : Effect α} (same : x s = y t) : (x >>= f) s = (y >>= f) t := by
  change EStateM.bind x f s = EStateM.bind y f t
  rw [EStateM.bind, EStateM.bind, same]

theorem bind_eq_ok : (x >>= f) s = .ok b u ↔ ∃ a t, x s = .ok a t ∧ f a t = .ok b u := by
  cases first : x s with
  | ok a t =>
      rw [bind_ok first]
      constructor
      · exact fun next => ⟨a, t, rfl, next⟩
      · rintro ⟨_, _, same, next⟩
        cases same
        exact next
  | error e t =>
      rw [bind_error first]
      constructor
      · nofun
      · rintro ⟨_, _, same, _⟩
        cases same

theorem bind_eq_error {e : RunError} :
    (x >>= f) s = .error e u ↔ x s = .error e u ∨ ∃ a t, x s = .ok a t ∧ f a t = .error e u := by
  cases first : x s with
  | ok a t =>
      rw [bind_ok first]
      constructor
      · exact fun next => .inr ⟨a, t, rfl, next⟩
      · rintro (same | ⟨_, _, same, next⟩) <;> cases same
        exact next
  | error e' t =>
      rw [bind_error first]
      constructor
      · intro same
        cases same
        exact .inl rfl
      · rintro (same | ⟨_, _, same, _⟩) <;> cases same
        rfl

theorem get_bind (f : State → Effect β) (s : State) : ((get : Effect State) >>= f) s = f s s := rfl

theorem pure_eq_ok : (pure a : Effect α) s = .ok a' t ↔ a = a' ∧ s = t := by
  change EStateM.Result.ok a s = .ok a' t ↔ _
  simp only [EStateM.Result.ok.injEq]

theorem ofExcept_eq_ok {r : Except Fault α} : ofExcept r s = .ok a t ↔ r = .ok a ∧ s = t := by
  cases r with
  | ok a' => simp only [ofExcept, pure_eq_ok, Except.ok.injEq]
  | error fault =>
      constructor
      · nofun
      · nofun

theorem located_eq_ok {pos : Pos} : located pos x s = .ok a t ↔ x s = .ok a t := by
  unfold located
  cases x s with
  | ok a' t' => exact Iff.rfl
  | error e t' =>
      constructor
      · nofun
      · nofun

theorem located_eq_error {pos : Pos} {e : RunError} :
    located pos x s = .error e t ↔ ∃ e', x s = .error e' t ∧ e = e'.within pos := by
  unfold located
  cases x s with
  | ok a t' => simp
  | error e' t' =>
      simp only [EStateM.Result.error.injEq]
      constructor
      · rintro ⟨rfl, rfl⟩
        exact ⟨e', ⟨rfl, rfl⟩, rfl⟩
      · rintro ⟨_, ⟨rfl, rfl⟩, rfl⟩
        exact ⟨rfl, rfl⟩

/-- A change of the state that is told by the state and may be refused. -/
def attempt {γ : Type} (r : State → Except Fault γ) (put : γ → State → State) : Effect Unit := do
  let c ← ofExcept (r (← get))
  modify (put c)

section Attempt

variable {γ : Type} {r : State → Except Fault γ} {put : γ → State → State}

theorem attempt_ok {c : γ} (ok : r s = .ok c) : attempt r put s = .ok () (put c s) := by
  rw [attempt, get_bind, ok]
  rfl

theorem attempt_error {fault : Fault} (refused : r s = .error fault) :
    attempt r put s = .error ⟨fault, none⟩ s := by
  rw [attempt, get_bind, refused]
  rfl

end Attempt

theorem after_of_ok (ok : x s = .ok a t) : x.after s = t := by
  rw [after, ok]

theorem after_of_error {e : RunError} (failed : x s = .error e t) : x.after s = t := by
  rw [after, failed]

theorem after_bind_pure (x : Effect α) (g : α → β) (s : State) :
    (x >>= fun a => pure (g a)).after s = x.after s := by
  cases ran : x s with
  | ok a t => rw [after_of_ok ran, after, bind_ok ran]; rfl
  | error e t => rw [after_of_error ran, after, bind_error ran]

theorem after_ofExcept (r : Except Fault α) (s : State) : (ofExcept r).after s = s := by
  cases r with
  | ok a => rfl
  | error fault => rfl

theorem after_located (pos : Pos) (x : Effect α) (s : State) :
    (located pos x).after s = x.after s := by
  unfold after located
  cases x s with
  | ok a t => rfl
  | error e t => rfl

theorem after_between (enter leave : State → State) (x : Effect α) (s : State) :
    (between enter leave x).after s = leave (x.after (enter s)) := by
  unfold after between
  cases x (enter s) with
  | ok a t => rfl
  | error e t => rfl

theorem outcome_between (enter leave : State → State) (x : Effect α) (s : State) :
    (between enter leave x).outcome s = x.outcome (enter s) := by
  unfold outcome between
  cases x (enter s) with
  | ok a t => rfl
  | error e t => rfl

/-- What holds after a first action and is kept by a second one holds after both. -/
theorem afterwards {P Q : State → Prop} (first : P (x.after s)) (stop : ∀ t, P t → Q t)
    (next : ∀ a t, P t → Q ((f a).after t)) : Q ((x >>= f).after s) := by
  cases ran : x s with
  | ok a t =>
      rw [after_of_ok ran] at first
      rw [after, bind_ok ran]
      exact next a t first
  | error e t =>
      rw [after_of_error ran] at first
      rw [after_of_error (bind_error ran)]
      exact stop t first

theorem after_forM {f : α → Effect PUnit} {xs : List α} {P : State → Prop}
    (each : ∀ a ∈ xs, ∀ t, P t → P ((f a).after t)) (start : P s) :
    P ((xs.forM f).after s) := by
  induction xs generalizing s with
  | nil => exact start
  | cons a xs ih =>
      apply afterwards (each a List.mem_cons_self s start) (fun _ h => h)
      exact fun _ t h => ih (fun b member => each b (List.mem_cons_of_mem a member)) h

end Effect

end Treewalk
