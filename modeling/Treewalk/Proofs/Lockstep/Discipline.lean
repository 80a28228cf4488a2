import Treewalk.Proofs.Effects
import Treewalk.Proofs.Places

/-! # Two runs in lockstep

Two evaluators start from two states, and each does what the other does. The
second one may stop before the first, with an error at a point that the first one
passes; no construct takes an error back, so it stays with that error while the
first goes on alone.

A `Discipline` says which states may stand beside each other, how far a state may
move while an expression, a statement or a program runs, which places errors may
have and what is known of the values in between. Its laws speak about single reads
and writes only; the modules that follow carry them through every construct of the
language.

Where only equal states stand beside each other, this is an invariant of one
run.
-/

namespace Treewalk

/-! ## The second run -/

/-- The second of two runs. -/
inductive SecondRun where
  | running (t : State)
  /-- It has stopped with an error, having printed this. -/
  | stopped (e : RunError) (sink : Sink)

namespace SecondRun

instance : Coe State SecondRun := ⟨running⟩

/-- A change of the state, if there is one. -/
def map (f : State → State) : SecondRun → SecondRun
  | running t => running (f t)
  | stopped e sink => stopped e sink

/-- What an action makes of the second run where the first one has an outcome: it
    has the same outcome, or it stops there, or it has stopped before. -/
inductive Step {α : Type} (y : Effect α) :
    SecondRun → Except RunError α → SecondRun → Prop where
  | ok {t t' : State} {a : α} : y t = .ok a t' → Step y (running t) (.ok a) (running t')
  | error {t t' : State} {e : RunError} : y t = .error e t' →
      Step y (running t) (.error e) (running t')
  | stops {t t' : State} {e : RunError} {r : Except RunError α} : y t = .error e t' →
      Step y (running t) r (stopped e t'.sink)
  | stopped {e : RunError} {sink : Sink} {r : Except RunError α} :
      Step y (stopped e sink) r (stopped e sink)

namespace Step

variable {α β : Type} {y : Effect α} {g : α → Effect β} {t t' u : SecondRun} {a : α}

theorem bind {r : Except RunError β} (first : Step y t (.ok a) t') (second : Step (g a) t' r u) :
    Step (y >>= g) t r u := by
  cases first with
  | ok ran =>
      cases second with
      | ok next => exact .ok ((Effect.bind_ok ran).trans next)
      | error next => exact .error ((Effect.bind_ok ran).trans next)
      | stops next => exact .stops ((Effect.bind_ok ran).trans next)
  | stops ran =>
      cases second with
      | stopped => exact .stops (Effect.bind_error ran)
  | stopped =>
      cases second with
      | stopped => exact .stopped

theorem bind_error {e : RunError} (first : Step y t (.error e) t') :
    Step (y >>= g) t (.error e) t' := by
  cases first with
  | error ran => exact .error (Effect.bind_error ran)
  | stops ran => exact .stops (Effect.bind_error ran)
  | stopped => exact .stopped

theorem between {enter leave : State → State} {r : Except RunError α}
    (sink : ∀ u, (leave u).sink = u.sink) (h : Step y (t.map enter) r t') :
    Step (Effect.between enter leave y) t r (t'.map leave) := by
  cases t with
  | running t =>
      cases h with
      | ok ran => exact .ok (by rw [Effect.between, ran])
      | error ran => exact .error (by rw [Effect.between, ran])
      | @stops _ t' e r ran =>
          rw [← sink t']
          exact .stops (by rw [Effect.between, ran])
  | stopped e sink =>
      cases h with
      | stopped => exact .stopped

/-- Only what the action does from where it starts counts. -/
theorem congr {y' : Effect α} {r : Except RunError α} (same : ∀ u, t = .running u → y u = y' u)
    (h : Step y t r t') : Step y' t r t' := by
  cases h with
  | ok ran => exact .ok ((same _ rfl).symm.trans ran)
  | error ran => exact .error ((same _ rfl).symm.trans ran)
  | stops ran => exact .stops ((same _ rfl).symm.trans ran)
  | stopped => exact .stopped

end Step

end SecondRun

/-! ## Disciplines -/

/-- Two states in which every name, array, function and package means the same,
    and in which the current calls return the same type. -/
structure State.SameView (s t : State) : Prop where
  lookup : s.env.lookup = t.env.lookup
  heap : s.heap = t.heap
  function : s.function? = t.function?
  imports : s.imports.contains = t.imports.contains
  result : s.result? = t.result?

theorem State.SameView.refl (s : State) : s.SameView s := ⟨rfl, rfl, rfl, rfl, rfl⟩

/-- A value that names no array. -/
def Value.IsScalar (v : Value) : Prop := ∀ h, v ≠ .array h

/-- A whole number. -/
def Value.IsInt (v : Value) : Prop := ∃ n, v = .int n

/-- What is being run, and so what may change at most. -/
inductive Scale where
  | expr
  /-- Assignments, and whatever else declares nothing. -/
  | store
  | stmt
  | program

/-- Two states that move to two others. -/
structure Moves (beside allowed : State → State → Prop) (s t s' t' : State) : Prop where
  beside : beside s' t'
  left : allowed s s'
  right : allowed t t'

/-- One state that moves to another. -/
theorem Moves.same {P : State → Prop} {allowed : State → State → Prop} {s s' : State} (h : P s')
    (moved : allowed s s') : Moves (fun s t => s = t ∧ P s) allowed s s s' s' :=
  ⟨⟨rfl, h⟩, moved, moved⟩

/-- Two attempts that fail alike or both succeed, or of which the second fails in a
    way that the first one may pass. -/
inductive Attempts {α : Type} (P : α → α → Prop) (passes : α → Fault → Prop) :
    Except Fault α → Except Fault α → Prop where
  | ok {a b : α} : P a b → Attempts P passes (.ok a) (.ok b)
  | error (fault : Fault) : Attempts P passes (.error fault) (.error fault)
  | passed {a : α} {fault : Fault} : passes a fault → Attempts P passes (.ok a) (.error fault)

theorem Attempts.same {α : Type} {P : α → α → Prop} {passes : α → Fault → Prop}
    (r : Except Fault α) (h : ∀ a, r = .ok a → P a a) : Attempts P passes r r := by
  cases r with
  | ok a => exact .ok (h a rfl)
  | error fault => exact .error fault

/-- No fault is passed. -/
def noFault {α : Type} (_ : α) (_ : Fault) : Prop := False

theorem Attempts.imp {α : Type} {P P' : α → α → Prop} {passes passes' : α → Fault → Prop}
    {r r' : Except Fault α} (h : Attempts P passes r r')
    (ok : ∀ a b, r = .ok a → r' = .ok b → P a b → P' a b)
    (passed : ∀ a fault, passes a fault → passes' a fault) : Attempts P' passes' r r' := by
  cases h with
  | ok h => exact .ok (ok _ _ rfl rfl h)
  | error fault => exact .error fault
  | passed h => exact .passed (passed _ _ h)

/-- The place is a marked one if it is known. -/
def Marked (marks : Pos → Prop) (place : Option Pos) : Prop := ∀ pos, place = some pos → marks pos

theorem Marked.within {marks : Pos → Prop} {e : RunError} (h : Marked marks e.pos) {pos : Pos}
    (mark : marks pos) : Marked marks (e.within pos).pos := by
  rintro _ ⟨⟩
  cases known : e.pos with
  | none => exact mark
  | some pos' => exact h pos' known

/-- Two states in the same calls. -/
def State.SameCalls (s t : State) : Prop := t.calls = s.calls

namespace State.SameCalls

variable {s t u : State}

theorem refl (s : State) : s.SameCalls s := rfl

theorem trans (first : s.SameCalls t) (second : t.SameCalls u) : s.SameCalls u :=
  Eq.trans second first

theorem result? (h : s.SameCalls t) : t.result? = s.result? := by
  rw [State.result?, State.result?, h]

end State.SameCalls

/-- How two runs stay in lockstep. -/
structure Discipline where
  /-- The states that the two runs may be in at the same time. -/
  beside : State → State → Prop
  /-- How far one state may move. -/
  allows : Scale → State → State → Prop := fun _ => State.SameCalls
  /-- The values that may be around. -/
  owns : Heap → Value → Prop := fun _ _ => True
  /-- The values that may be stored at a type. -/
  fits : Heap → Ty → Value → Prop := fun _ _ _ => True
  /-- The functions that may be called. -/
  callable : Func → Prop := fun _ => True
  /-- The places that errors may have. -/
  marks : Pos → Prop := fun _ => True
  /-- The second run has stopped with an error and an output, and the first has come
      to another output. -/
  past : RunError → Sink → Sink → Prop := fun _ _ _ => False
  /-- Whether all names of constants without a type are bound to whole numbers. -/
  honest : Prop := False
  allows_refl : ∀ k s, allows k s s := by exact fun _ => State.SameCalls.refl
  allows_trans : ∀ {k s t u}, allows k s t → allows k t u → allows k s u := by
    exact State.SameCalls.trans
  allows_store : ∀ {s t}, allows .expr s t → allows .store s t := by exact fun h => h
  allows_stmt : ∀ {s t}, allows .store s t → allows .stmt s t := by exact fun h => h
  allows_program : ∀ {s t}, allows .stmt s t → allows .program s t := by exact fun h => h
  view : ∀ {s t}, beside s t → s.SameView t
  result_kept : ∀ {s t}, allows .stmt s t → t.result? = s.result? := by
    exact State.SameCalls.result?
  owns_scalar : ∀ {heap v}, v.IsScalar → owns heap v := by exact fun _ => trivial
  owns_fitting : ∀ {heap ty v}, fits heap ty v → owns heap v := by exact fun _ => trivial
  owns_kept : ∀ {s t v}, allows .program s t → owns s.heap v → owns t.heap v := by
    exact fun _ _ => trivial
  fits_kept : ∀ {s t ty v}, allows .program s t → fits s.heap ty v → fits t.heap ty v := by
    exact fun _ _ => trivial
  callable_named : ∀ {s t x f}, beside s t → s.function? x = some f → callable f := by
    exact fun _ _ => trivial
  callable_marked : ∀ {f}, callable f → ∀ pos ∈ f.places, marks pos := by
    exact fun _ _ _ => trivial
  owns_named : ∀ {s t x b}, beside s t → s.env.lookup x = some b → owns s.heap b.value := by
    exact fun _ _ => trivial
  owns_cell : ∀ {s t h i v}, beside s t → owns s.heap (.array h) → s.heap.get h i = .ok v →
    owns s.heap v := by exact fun _ _ _ => trivial
  honest_named : ∀ {s t x b}, honest → beside s t → s.env.lookup x = some b →
    b.role = .untyped → b.value.IsInt := by exact fun h => h.elim
  fits_conform : ∀ {s t ty v untyped target w}, beside s t → owns s.heap v →
    s.heap.conform ty v untyped target = .ok w → fits s.heap ty w := by
    exact fun _ _ _ => trivial
  fits_inferred : ∀ {s t v target ty}, beside s t → owns s.heap v →
    s.heap.inferredType v target = .ok ty → fits s.heap ty v := by exact fun _ _ _ => trivial
  emit : ∀ {s t} (e : Emit), beside s t →
    Attempts (fun sink sink' => Moves beside (allows .expr) s t { s with sink }
      { t with sink := sink' }) (fun sink fault => past ⟨fault, none⟩ t.sink sink)
      (s.sink.emit e) (t.sink.emit e)
  alloc : ∀ {s t len elem h heap}, beside s t → Ty.declarable (.array len elem) = .ok () →
    s.heap.alloc (.zero len elem) = (h, heap) →
    Moves beside (allows .store) s t { s with heap } { t with heap } ∧
      fits heap (.array len elem) (.array h)
  set : ∀ {s t h i v heap}, beside s t → owns s.heap (.array h) →
    fits s.heap (s.heap.store h).elem v → s.heap.set h i v = .ok heap →
    Moves beside (allows .store) s t { s with heap } { t with heap }
  declare : ∀ {s t b} (x : String), beside s t → fits s.heap b.ty b.value →
    (honest → b.role = .untyped → b.value.IsInt) →
    Attempts (fun env env' => Moves beside (allows .stmt) s t { s with env } { t with env := env' })
      noFault (s.env.declare x b) (t.env.declare x b)
  assign : ∀ {s t x b v}, beside s t → s.env.lookup x = some b → fits s.heap b.ty v →
    Attempts (fun env env' => Moves beside (allows .store) s t { s with env }
      { t with env := env' }) noFault (s.env.assign x v) (t.env.assign x v)
  enterBlock : ∀ {s t}, beside s t → beside s.enterBlock t.enterBlock
  leaveBlock : ∀ {s t s' t'}, beside s t →
    Moves beside (allows .stmt) s.enterBlock t.enterBlock s' t' →
    Moves beside (allows .stmt) s t s'.leaveBlock t'.leaveBlock
  past_within : ∀ {e a b} (pos : Pos), past e a b → past (e.within pos) a b := by
    exact fun _ past => past
  past_emit : ∀ {err a b b'} {e : Emit}, past err a b → b.emit e = .ok b' → past err a b' := by
    exact fun past _ => past
  /-- A run that goes on alone is its own companion. -/
  alone : ∀ {s t e a b}, past e a b → beside s t → beside s s := by exact fun past => past.elim

namespace Discipline

variable (D : Discipline) {α β : Type} {k k' : Scale} {s s' s'' : State} {t t' t'' : SecondRun}

/-- The first run is in a state beside the second one. -/
def Beside (s : State) : SecondRun → Prop
  | .running t => D.beside s t
  | .stopped e sink => D.beside s s ∧ D.past e sink s.sink

/-- How far the second run may move. It does not start again. -/
def AllowsSecond (k : Scale) : SecondRun → SecondRun → Prop
  | .running t, .running t' => D.allows k t t'
  | .stopped _ _, .running _ => False
  | _, .stopped _ _ => True

/-- The two runs have moved. -/
structure Moved (k : Scale) (s : State) (t : SecondRun) (s' : State) (t' : SecondRun) : Prop where
  beside : D.Beside s' t'
  left : D.allows k s s'
  right : D.AllowsSecond k t t'

/-- No run stops before the other. -/
def StopsTogether : Prop := ∀ {e a b}, ¬ D.past e a b

/-- All places of a list may be those of errors. -/
def MarksAll (places : List Pos) : Prop := ∀ pos ∈ places, D.marks pos

/-- Only equal states stand beside each other, and no run stops before the other. -/
structure Single : Prop where
  same : ∀ {s t : State}, D.beside s t → s = t
  together : D.StopsTogether

variable {D}

@[simp] theorem marksAll_cons {pos : Pos} {places : List Pos} :
    D.MarksAll (pos :: places) ↔ D.marks pos ∧ D.MarksAll places := List.forall_mem_cons

@[simp] theorem marksAll_append {places places' : List Pos} :
    D.MarksAll (places ++ places') ↔ D.MarksAll places ∧ D.MarksAll places' :=
  List.forall_mem_append

theorem MarksAll.mono {places places' : List Pos} (h : D.MarksAll places)
    (sub : places' ⊆ places) : D.MarksAll places' :=
  fun pos member => h pos (sub member)

theorem Single.running (single : D.Single) (h : D.Beside s t) : t = .running s := by
  cases t with
  | running t => rw [single.same h]
  | stopped e sink => exact (single.together h.2).elim

/-- Whatever the second run does, the first is in a state that the laws speak of. -/
theorem Beside.exists (h : D.Beside s t) : ∃ u, D.beside s u := by
  cases t with
  | running t => exact ⟨t, h⟩
  | stopped e sink => exact ⟨s, h.1⟩

theorem AllowsSecond.refl : D.AllowsSecond k t t := by
  cases t with
  | running t => exact D.allows_refl k t
  | stopped e sink => trivial

theorem AllowsSecond.trans (first : D.AllowsSecond k t t') (second : D.AllowsSecond k t' t'') :
    D.AllowsSecond k t t'' := by
  cases t'' with
  | stopped e sink => cases t <;> trivial
  | running t'' =>
      cases t' with
      | stopped e sink => exact second.elim
      | running t' =>
          cases t with
          | stopped e sink => exact first.elim
          | running t => exact D.allows_trans first second

theorem Moved.refl (h : D.Beside s t) : D.Moved k s t s t := ⟨h, D.allows_refl k s, .refl⟩

theorem Moved.trans (first : D.Moved k s t s' t') (second : D.Moved k s' t' s'' t'') :
    D.Moved k s t s'' t'' :=
  ⟨second.beside, D.allows_trans first.left second.left, first.right.trans second.right⟩

/-- The order of scales. -/
def Scale.le : Scale → Scale → Bool
  | .expr, _ | .store, .store | .store, .stmt | .stmt, .stmt | _, .program => true
  | _, _ => false

theorem allows_le (le : Scale.le k k') (h : D.allows k s s') : D.allows k' s s' := by
  cases k with
  | expr =>
      cases k' with
      | expr => exact h
      | store => exact D.allows_store h
      | stmt => exact D.allows_stmt (D.allows_store h)
      | program => exact D.allows_program (D.allows_stmt (D.allows_store h))
  | store =>
      cases k' with
      | expr => cases le
      | store => exact h
      | stmt => exact D.allows_stmt h
      | program => exact D.allows_program (D.allows_stmt h)
  | stmt =>
      cases k' with
      | expr | store => cases le
      | stmt => exact h
      | program => exact D.allows_program h
  | program =>
      cases k' with
      | expr | store | stmt => cases le
      | program => exact h

theorem AllowsSecond.lift (le : Scale.le k k') (h : D.AllowsSecond k t t') :
    D.AllowsSecond k' t t' := by
  cases t' with
  | stopped e sink => cases t <;> trivial
  | running t' =>
      cases t with
      | stopped e sink => exact h.elim
      | running t => exact allows_le le h

theorem Moved.lift (le : Scale.le k k') (h : D.Moved k s t s' t') : D.Moved k' s t s' t' :=
  ⟨h.beside, allows_le le h.left, h.right.lift le⟩

theorem Moved.allowed (h : D.Moved k s t s' t') : D.allows .program s s' :=
  allows_le (by cases k <;> rfl) h.left

theorem Moved.owns (h : D.Moved k s t s' t') {v : Value} (owned : D.owns s.heap v) :
    D.owns s'.heap v :=
  D.owns_kept h.allowed owned

theorem Moved.fits (h : D.Moved k s t s' t') {ty : Ty} {v : Value} (fit : D.fits s.heap ty v) :
    D.fits s'.heap ty v :=
  D.fits_kept h.allowed fit

/-- The error that the second run has stopped with may get a place. -/
theorem Moved.located {y : Effect α} {r : Except RunError α} (pos : Pos)
    (step : t.Step y r t') (moved : D.Moved k s t s' t') :
    ∃ t'', t.Step (Effect.located pos y) (r.mapError (·.within pos)) t'' ∧
      D.Moved k s t s' t'' := by
  cases step with
  | ok ran => exact ⟨_, .ok (by rw [Effect.located, ran]), moved⟩
  | error ran => exact ⟨_, .error (by rw [Effect.located, ran]), moved⟩
  | stops ran =>
      obtain ⟨⟨beside, past⟩, left, _⟩ := moved
      exact ⟨_, .stops (by rw [Effect.located, ran]), ⟨beside, D.past_within pos past⟩, left,
        trivial⟩
  | stopped => exact ⟨_, .stopped, moved⟩

/-- A way back from another discipline, for both runs or for the one that is left. -/
theorem Moved.leave {D' : Discipline} {enter leave : State → State} (h : D.Beside s t)
    (leaves : ∀ {u s' u'}, D.beside s u →
      Moves D'.beside (D'.allows k') (enter s) (enter u) s' u' →
      Moves D.beside (D.allows k) s u (leave s') (leave u'))
    (past : ∀ {e a b}, D'.past e a b → D.past e a b) (sink : ∀ u, (leave u).sink = u.sink)
    (moved : D'.Moved k' (enter s) (t.map enter) s' t') :
    D.Moved k s t (leave s') (t'.map leave) := by
  obtain ⟨beside, left, right⟩ := moved
  have alone : ∀ {e a}, D.beside s s → D'.Beside s' (.stopped e a) →
      D.Moved k s t (leave s') (.stopped e a) := by
    intro e a own beside
    have moves := leaves own ⟨beside.1, left, left⟩
    exact ⟨⟨moves.beside, sink s' ▸ past beside.2⟩, moves.left, by cases t <;> trivial⟩
  cases t' with
  | running t' =>
      cases t with
      | stopped e sink => exact right.elim
      | running t =>
          have moves := leaves h ⟨beside, left, right⟩
          exact ⟨moves.beside, moves.left, moves.right⟩
  | stopped e a =>
      cases t with
      | stopped e sink => exact alone h.1 beside
      | running t => exact alone (D.alone (past beside.2) h) beside

/-! ## Actions in lockstep -/

variable (D)

/-- What comes of the first run, beside a second one that takes an action. -/
inductive Outcomes (k : Scale) (y : Effect α) (s : State) (t : SecondRun)
    (Q : α → State → Prop) : EStateM.Result RunError State α → Prop where
  | ok {a : α} {s' : State} {t' : SecondRun} (step : t.Step y (.ok a) t')
      (moved : D.Moved k s t s' t') (post : Q a s') : Outcomes k y s t Q (.ok a s')
  | error {e : RunError} {s' : State} {t' : SecondRun} (step : t.Step y (.error e) t')
      (moved : D.Moved k s t s' t') (mark : Marked D.marks e.pos) : Outcomes k y s t Q (.error e s')

/-- Two actions that stay in lockstep. If the first one succeeds, `Q` holds of its
    value. -/
def Lockstep (k : Scale) (x y : Effect α) (s : State) (t : SecondRun) (Q : α → State → Prop) :
    Prop :=
  D.Outcomes k y s t Q (x s)

variable {D}

namespace Lockstep

variable {x y : Effect α} {P Q : α → State → Prop}

protected theorem imp (h : D.Lockstep k x y s t P)
    (post : ∀ a s' t', D.Moved k s t s' t' → P a s' → Q a s') : D.Lockstep k x y s t Q := by
  unfold Lockstep at *
  generalize x s = r at h
  cases h with
  | ok step moved old => exact .ok step moved (post _ _ _ moved old)
  | error step moved mark => exact .error step moved mark

theorem lift (h : D.Lockstep k x y s t Q) (le : Scale.le k k' := by rfl) :
    D.Lockstep k' x y s t Q := by
  unfold Lockstep at *
  generalize x s = r at h
  cases h with
  | ok step moved post => exact .ok step (moved.lift le) post
  | error step moved mark => exact .error step (moved.lift le) mark

/-- Only what the actions do from where they start counts. -/
theorem congr {x' y' : Effect α} (left : x s = x' s) (right : ∀ u, t = .running u → y u = y' u)
    (h : D.Lockstep k x y s t Q) : D.Lockstep k x' y' s t Q := by
  unfold Lockstep at *
  rw [left] at h
  generalize x' s = r at h
  cases h with
  | ok step moved post => exact .ok (step.congr right) moved post
  | error step moved mark => exact .error (step.congr right) moved mark

protected theorem pure (h : D.Beside s t) {a : α} (post : Q a s) :
    D.Lockstep k (Pure.pure a) (Pure.pure a) s t Q := by
  cases t with
  | running t => exact .ok (.ok rfl) (.refl h) post
  | stopped e sink => exact .ok .stopped (.refl h) post

theorem throw (h : D.Beside s t) {e : RunError} (mark : Marked D.marks e.pos) :
    D.Lockstep k (MonadExcept.throw e : Effect α) (MonadExcept.throw e) s t Q := by
  cases t with
  | running t => exact .error (.error rfl) (.refl h) mark
  | stopped e sink => exact .error .stopped (.refl h) mark

protected theorem fail (h : D.Beside s t) (fault : Fault) :
    D.Lockstep k (Effect.fail fault : Effect α) (Effect.fail fault) s t Q :=
  throw h nofun

protected theorem failAt (h : D.Beside s t) {pos : Pos} (mark : D.marks pos) (fault : Fault) :
    D.Lockstep k (Effect.failAt pos fault : Effect α) (Effect.failAt pos fault) s t Q := by
  apply throw h
  rintro _ ⟨⟩
  exact mark

protected theorem bind {f g : α → Effect β} {R : β → State → Prop} (first : D.Lockstep k x y s t P)
    (next : ∀ a s' t', D.Moved k s t s' t' → P a s' → D.Lockstep k (f a) (g a) s' t' R) :
    D.Lockstep k (x >>= f) (y >>= g) s t R := by
  unfold Lockstep at *
  change D.Outcomes k (y >>= g) s t R (EStateM.bind x f s)
  unfold EStateM.bind
  generalize x s = r at first
  cases first with
  | @ok a s' t' step moved post =>
      have second := next a s' t' moved post
      dsimp only
      generalize f a s' = r at second
      cases second with
      | ok step' moved' post' => exact .ok (step.bind step') (moved.trans moved') post'
      | error step' moved' mark => exact .error (step.bind step') (moved.trans moved') mark
  | error step moved mark => exact .error step.bind_error moved mark

/-- Both runs look at their states, which show the same to them. -/
protected theorem get {f g : State → Effect β} {R : β → State → Prop} (h : D.Beside s t)
    (next : ∀ u, s.SameView u → D.Lockstep k (f s) (g u) s t R) :
    D.Lockstep k (MonadState.get >>= f) (MonadState.get >>= g) s t R := by
  cases t with
  | running t => exact (next t (D.view h)).congr rfl fun u same => by cases same; rfl
  | stopped e sink => exact (next s (.refl s)).congr rfl nofun

protected theorem discard {R : Unit → State → Prop} (h : D.Lockstep k x y s t P)
    (post : ∀ a s', P a s' → R () s') : D.Lockstep k (discard x) (discard y) s t R :=
  h.bind fun a _ _ moved old => .pure moved.beside (post a _ old)

protected theorem ofExcept {r r' : Except Fault α} (h : D.Beside s t) (same : r = r')
    (post : ∀ a, r = .ok a → Q a s) :
    D.Lockstep k (Effect.ofExcept r) (Effect.ofExcept r') s t Q := by
  subst same
  cases r with
  | ok a => exact .pure h (post a rfl)
  | error fault => exact .fail h fault

/-- A check leaves the state alone, so what was known before it still holds. -/
theorem check {γ : Type} {r r' : Except Fault γ} {f g : γ → Effect α} (h : D.Beside s t)
    (same : r = r') (next : ∀ a, r = .ok a → D.Lockstep k (f a) (g a) s t Q) :
    D.Lockstep k (Effect.ofExcept r >>= f) (Effect.ofExcept r' >>= g) s t Q := by
  subst same
  cases r with
  | ok a => exact next a rfl
  | error fault => exact .fail h fault

/-- A change that both runs make without a look at their states. -/
theorem change {f : State → State} {R : Unit → State → Prop} (h : D.Beside s t)
    (law : ∀ {u}, D.beside s u → Moves D.beside (D.allows k) s u (f s) (f u))
    (post : R () (f s)) (sink : (f s).sink = s.sink := by rfl) :
    D.Lockstep k (modify f) (modify f) s t R := by
  cases t with
  | running t =>
      obtain ⟨beside, left, right⟩ := law h
      exact .ok (.ok rfl) ⟨beside, left, right⟩ post
  | stopped e a =>
      obtain ⟨beside, left, _⟩ := law h.1
      exact .ok .stopped ⟨⟨beside, sink ▸ h.2⟩, left, trivial⟩ post

/-- A change that may be refused. What the second run has stopped with is still
    past after it. -/
theorem attempt {γ : Type} (r : State → Except Fault γ) (put : γ → State → State)
    (h : D.Beside s t)
    (law : ∀ {u}, D.beside s u →
      Attempts (fun c c' => Moves D.beside (D.allows k) s u (put c s) (put c' u))
        (fun c fault => D.past ⟨fault, none⟩ u.sink (put c s).sink) (r s) (r u))
    (later : ∀ {e a c}, r s = .ok c → D.past e a s.sink → D.past e a (put c s).sink) :
    D.Lockstep k (Effect.attempt r put) (Effect.attempt r put) s t fun _ _ => True := by
  -- A run that is alone makes the change that it would make beside itself.
  have own : ∀ {c}, D.beside s s → r s = .ok c →
      Moves D.beside (D.allows k) s s (put c s) (put c s) := by
    intro c beside ok
    have both := law beside
    rw [ok] at both
    cases both with
    | ok moves => exact moves
  unfold Lockstep
  cases here : r s with
  | ok c =>
      rw [Effect.attempt_ok here]
      cases t with
      | stopped e a =>
          have moves := own h.1 here
          exact .ok .stopped ⟨⟨moves.beside, later here h.2⟩, moves.left, trivial⟩ trivial
      | running t =>
          have both := law h
          rw [here] at both
          cases there : r t with
          | ok c' =>
              rw [there] at both
              cases both with
              | ok moves =>
                  exact .ok (.ok (Effect.attempt_ok there))
                    ⟨moves.beside, moves.left, moves.right⟩ trivial
          | error fault =>
              rw [there] at both
              cases both with
              | passed past =>
                  have moves := own (D.alone past h) here
                  exact .ok (.stops (Effect.attempt_error there))
                    ⟨⟨moves.beside, past⟩, moves.left, trivial⟩ trivial
  | error fault =>
      rw [Effect.attempt_error here]
      cases t with
      | stopped e a => exact .error .stopped (.refl h) nofun
      | running t =>
          have both := law h
          rw [here] at both
          cases there : r t with
          | ok c' =>
              rw [there] at both
              cases both
          | error fault' =>
              rw [there] at both
              cases both with
              | error => exact .error (.error (Effect.attempt_error there)) (.refl h) nofun

theorem located {pos : Pos} (mark : D.marks pos) (h : D.Lockstep k x y s t Q) :
    D.Lockstep k (Effect.located pos x) (Effect.located pos y) s t Q := by
  unfold Lockstep at *
  unfold Effect.located
  generalize x s = r at h
  cases h with
  | ok step moved post =>
      obtain ⟨_, step, moved⟩ := moved.located pos step
      exact .ok step moved post
  | error step moved marked =>
      obtain ⟨_, step, moved⟩ := moved.located pos step
      exact .error step moved (marked.within mark)

/-- Between an entry and an exit another discipline may hold. -/
theorem between {D' : Discipline} {enter leave : State → State} (h : D.Beside s t)
    (inside : D'.Lockstep k' x y (enter s) (t.map enter) P)
    (leaves : ∀ {u s' u'}, D.beside s u →
      Moves D'.beside (D'.allows k') (enter s) (enter u) s' u' →
      Moves D.beside (D.allows k) s u (leave s') (leave u'))
    (marks : ∀ {pos}, D'.marks pos → D.marks pos)
    (past : ∀ {e a b}, D'.past e a b → D.past e a b) (post : ∀ a s', P a s' → Q a (leave s'))
    (sink : ∀ u, (leave u).sink = u.sink := by exact fun _ => rfl) :
    D.Lockstep k (Effect.between enter leave x) (Effect.between enter leave y) s t Q := by
  unfold Lockstep at *
  unfold Effect.between
  generalize x (enter s) = r at inside
  cases inside with
  | ok step moved old =>
      exact .ok (step.between sink) (moved.leave h leaves past sink) (post _ _ old)
  | error step moved mark =>
      exact .error (step.between sink) (moved.leave h leaves past sink)
        fun pos known => marks (mark pos known)

/-- A block keeps what its scope does not touch: of the last state only the
    heap counts for the outcome. -/
theorem inBlock {Q : α → Heap → Prop} (h : D.Beside s t)
    (inside : ∀ s' t', D.Beside s' t' → s'.heap = s.heap → s'.result? = s.result? →
      D.Lockstep .stmt x y s' t' fun a u => Q a u.heap) :
    D.Lockstep .stmt (Effect.inBlock x) (Effect.inBlock y) s t fun a u => Q a u.heap := by
  have entered : D.Beside s.enterBlock (t.map State.enterBlock) := by
    cases t with
    | running t => exact D.enterBlock h
    | stopped e sink => exact ⟨D.enterBlock h.1, h.2⟩
  exact (inside _ _ entered rfl rfl).between h D.leaveBlock id id fun _ _ post => post

/-- The second run stops, and the first one goes on without it. -/
theorem stopping {z : Effect α} {e : RunError} {t t' : State} (refused : y t = .error e t')
    (h : D.Lockstep k x z s (.stopped e t'.sink) Q) : D.Lockstep k x y s t Q := by
  unfold Lockstep at *
  generalize x s = r at h
  cases h with
  | ok step moved post =>
      cases step
      exact .ok (.stops refused) ⟨moved.beside, moved.left, trivial⟩ post
  | error step moved mark =>
      cases step
      exact .error (.stops refused) ⟨moved.beside, moved.left, trivial⟩ mark

/-! ## What is known afterwards -/

/-- The state that the first run leaves behind. -/
theorem reached (h : D.Lockstep k x y s t Q) : ∃ t', D.Moved k s t (x.after s) t' := by
  unfold Lockstep at h
  unfold Effect.after
  generalize x s = r at h
  cases h with
  | ok step moved post => exact ⟨_, moved⟩
  | error step moved mark => exact ⟨_, moved⟩

theorem allowed (h : D.Lockstep k x y s t Q) : D.allows k s (x.after s) :=
  h.reached.elim fun _ moved => moved.left

/-- The first run succeeds. -/
protected theorem ok (h : D.Lockstep k x y s t Q) {a : α} (ok : x s = .ok a s') :
    (∃ t', t.Step y (.ok a) t' ∧ D.Moved k s t s' t') ∧ Q a s' := by
  unfold Lockstep at h
  rw [ok] at h
  cases h with
  | ok step moved post => exact ⟨⟨_, step, moved⟩, post⟩

/-- What is known of one run that succeeds. -/
theorem kept (single : D.Single) (h : D.Lockstep k x y s t Q) {a : α} (ok : x s = .ok a s') :
    D.beside s' s' ∧ D.allows k s s' ∧ Q a s' := by
  obtain ⟨⟨t', step, moved⟩, post⟩ := h.ok ok
  obtain rfl := single.running moved.beside
  exact ⟨moved.beside, moved.left, post⟩

theorem error (h : D.Lockstep k x y s t Q) {e : RunError} (failed : x s = .error e s') :
    Marked D.marks e.pos := by
  unfold Lockstep at h
  rw [failed] at h
  cases h with
  | error step moved mark => exact mark

section Running

variable {t : State}

/-- Both runs move and have one outcome, or the second one has stopped before. -/
theorem agrees_or_stops (h : D.Lockstep k x y s t Q) :
    Moves D.beside (D.allows k) s t (x.after s) (y.after t) ∧ x.outcome s = y.outcome t ∨
      ∃ e, y.outcome t = .error e ∧ D.past e (y.after t).sink (x.after s).sink := by
  unfold Lockstep at h
  unfold Effect.after Effect.outcome
  generalize x s = r at h
  cases h with
  | ok step moved post =>
      cases step with
      | ok ran => exact .inl (ran ▸ ⟨⟨moved.beside, moved.left, moved.right⟩, rfl⟩)
      | stops ran =>
          rw [ran]
          exact .inr ⟨_, rfl, moved.beside.2⟩
  | error step moved mark =>
      cases step with
      | error ran => exact .inl (ran ▸ ⟨⟨moved.beside, moved.left, moved.right⟩, rfl⟩)
      | stops ran =>
          rw [ran]
          exact .inr ⟨_, rfl, moved.beside.2⟩

theorem moved (together : D.StopsTogether) (h : D.Lockstep k x y s t Q) :
    Moves D.beside (D.allows k) s t (x.after s) (y.after t) ∧ x.outcome s = y.outcome t :=
  h.agrees_or_stops.resolve_right fun ⟨_, _, past⟩ => together past

theorem eq (single : D.Single) (h : D.Lockstep k x y s s Q) : x s = y s := by
  unfold Lockstep at h
  generalize x s = r at h
  cases h with
  | ok step moved post =>
      cases step with
      | ok ran => rw [ran, single.same moved.beside]
      | stops ran => exact (single.together moved.beside.2).elim
  | error step moved mark =>
      cases step with
      | error ran => rw [ran, single.same moved.beside]
      | stops ran => exact (single.together moved.beside.2).elim

end Running

end Lockstep

end Discipline

end Treewalk
