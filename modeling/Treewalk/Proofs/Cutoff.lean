import Treewalk.Proofs.Reach

/-! # Runs that are cut off

One run goes the way of another until something stops it that the other one
passes: a lower limit on calls, or a sink that cannot take a print. There it ends:
no construct takes an error back, so the error comes through to the top, while the
other run can only add to what it printed.
-/

namespace Treewalk

/-! ## Outputs that begin another -/

/-- What was printed first, and what was printed in all. -/
inductive Sink.Begins : Sink → Sink → Prop where
  | silent : Begins .silent .silent
  | buffer {a b : String} : a.toList <+: b.toList → Begins (.buffer a) (.buffer b)
  | trace {a b : Array Emit} : a.toList <+: b.toList → Begins (.trace a) (.trace b)

namespace Sink.Begins

theorem refl (a : Sink) : a.Begins a := by
  cases a with
  | silent => exact .silent
  | buffer text => exact .buffer List.prefix_rfl
  | trace emits => exact .trace List.prefix_rfl

theorem trans {a b c : Sink} (first : a.Begins b) (second : b.Begins c) : a.Begins c := by
  cases first with
  | silent => exact second
  | buffer h => cases second with | buffer h' => exact .buffer (h.trans h')
  | trace h => cases second with | trace h' => exact .trace (h.trans h')

theorem emit {a b : Sink} {e : Emit} (ok : a.emit e = .ok b) : a.Begins b := by
  cases a with
  | silent =>
      cases ok
      exact .silent
  | buffer text =>
      simp only [Sink.emit] at ok
      split at ok <;> cases ok
      exact .buffer (by simp)
  | trace emits =>
      cases ok
      exact .trace (by simp)

end Sink.Begins

/-! ## A run that may be cut off beside one that goes on -/

/-- How the limit and the sink of a run that may be cut off stand beside those of a
    run that goes on. -/
structure Cutoff where
  /-- While both run. -/
  beside : Nat → Sink → Nat → Sink → Prop
  /-- Once the one has stopped with an error and a sink. -/
  past : RunError → Sink → Sink → Prop
  past_within : ∀ {e a b} (pos : Pos), past e a b → past (e.within pos) a b
  past_emit : ∀ {err a b b'} {e : Emit}, past err a b → b.emit e = .ok b' → past err a b'
  takes : ∀ {low a high b} (e : Emit), beside low a high b →
    Attempts (fun b' a' => beside low a' high b') (fun b' fault => past ⟨fault, none⟩ a b')
      (b.emit e) (a.emit e)
  /-- The limits are the same, or a call may be cut off. -/
  room : ∀ {low a high b}, beside low a high b →
    low = high ∨ low ≤ high ∧ past ⟨.stackOverflow low, none⟩ a b
  /-- Where a run may be cut off, the two do not come to one state, unless that is a
      state that they may both be in. -/
  meet : ∀ {e a b low c high d sink}, past e a b → beside low c high d → low = high →
    c.Begins sink → d.Begins sink → beside low sink high sink

namespace State

/-- The same state with another limit and another sink. -/
def outfitted (s : State) (limit : Nat) (sink : Sink) : State := { s with limit, sink }

/-- A change of the state that leaves the limit and the sink alone. -/
structure ChangesRest (f : State → State) : Prop where
  limit : ∀ s, (f s).limit = s.limit := by exact fun _ => rfl
  sink : ∀ s, (f s).sink = s.sink := by exact fun _ => rfl
  outfitted : ∀ s limit sink, f (s.outfitted limit sink) = (f s).outfitted limit sink := by
    exact fun _ _ _ => rfl

/-- Every call is left again, the limit stays, and output is only added to. -/
structure OnlyPrints (s t : State) : Prop where
  calls : t.calls = s.calls := by rfl
  limit : t.limit = s.limit := by rfl
  sink : s.sink.Begins t.sink := by exact .refl _

theorem OnlyPrints.trans {s t u : State} (first : s.OnlyPrints t) (second : t.OnlyPrints u) :
    s.OnlyPrints u :=
  ⟨second.calls.trans first.calls, second.limit.trans first.limit, first.sink.trans second.sink⟩

end State

namespace Cutoff

variable (C : Cutoff) {s t : State}

/-- The states of a run that goes on and of one that may be cut off. -/
def Runs (s t : State) : Prop :=
  ∃ limit sink, t = s.outfitted limit sink ∧ C.beside limit sink s.limit s.sink

/-- Both run. Once one of them is cut off, the other is its own companion. -/
def Beside (s t : State) : Prop := C.Runs s t ∨ t = s ∧ ∃ e a b, C.past e a b

variable {C}

namespace Beside

theorem change {f : State → State} (rest : State.ChangesRest f) (h : C.Beside s t) :
    C.Beside (f s) (f t) := by
  rcases h with ⟨limit, sink, rfl, h⟩ | ⟨rfl, stops⟩
  · refine .inl ⟨limit, sink, rest.outfitted s limit sink, ?_⟩
    rwa [rest.limit, rest.sink]
  · exact .inr ⟨rfl, stops⟩

theorem emit (h : C.Beside s t) (e : Emit) :
    Attempts (fun sink sink' => C.Beside { s with sink } { t with sink := sink' })
      (fun sink fault => C.past ⟨fault, none⟩ t.sink sink) (s.sink.emit e) (t.sink.emit e) := by
  rcases h with ⟨limit, sink, rfl, h⟩ | ⟨rfl, stops⟩
  · exact (C.takes e h).imp (fun _ _ _ _ h => .inl ⟨limit, _, rfl, h⟩) fun _ _ past => past
  · exact .same _ fun _ _ => .inr ⟨rfl, stops⟩

theorem env (h : C.Beside s t) : t.env = s.env := by
  rcases h with ⟨limit, sink, rfl, _⟩ | ⟨rfl, _⟩ <;> rfl

theorem view (h : C.Beside s t) : s.SameView t := by
  rcases h with ⟨limit, sink, rfl, _⟩ | ⟨rfl, _⟩ <;> exact ⟨rfl, rfl, rfl, rfl, rfl⟩

theorem room (h : C.Beside s t) : s.room = t.room ∧ s.limit = t.limit ∨
    t.room ≤ s.room ∧ C.past ⟨.stackOverflow t.limit, none⟩ t.sink s.sink := by
  rcases h with ⟨low, sink, rfl, h⟩ | ⟨rfl, _⟩
  · rcases C.room h with rfl | ⟨le, past⟩
    · exact .inl ⟨rfl, rfl⟩
    · exact .inr ⟨Nat.sub_le_sub_right le _, past⟩
  · exact .inl ⟨rfl, rfl⟩

end Beside

variable (C)

/-- The two runs in lockstep. -/
def discipline : Discipline where
  beside := C.Beside
  allows _ := State.OnlyPrints
  past := C.past
  allows_refl _ _ := {}
  allows_trans := State.OnlyPrints.trans
  view h := h.view
  result_kept h := State.SameCalls.result? h.calls
  emit e h := (h.emit e).imp
    (fun _ _ ok ok' h => ⟨h, { sink := .emit ok }, { sink := .emit ok' }⟩) fun _ _ past => past
  alloc h _ _ := ⟨⟨h.change (f := fun s => { s with heap := _ }) {}, {}, {}⟩, trivial⟩
  set h _ _ _ := ⟨h.change (f := fun s => { s with heap := _ }) {}, {}, {}⟩
  declare x h _ _ := by
    rw [h.env]
    exact .same _ fun env _ => ⟨h.change (f := fun s => { s with env }) {}, {}, {}⟩
  assign h _ _ := by
    rw [h.env]
    exact .same _ fun env _ => ⟨h.change (f := fun s => { s with env }) {}, {}, {}⟩
  enterBlock h := h.change {}
  leaveBlock _ moved := ⟨moved.beside.change {}, { moved.left with }, { moved.right with }⟩
  past_within := C.past_within
  past_emit := C.past_emit
  alone past _ := .inr ⟨rfl, _, _, _, past⟩

theorem closed : C.discipline.Closed where
  opens call := {
    room := Beside.room
    enter := fun h _ _ => h.change {}
    leave := fun _ _ moved => ⟨moved.beside.change {},
      ⟨congrArg List.tail moved.left.calls, moved.left.limit, moved.left.sink⟩,
      ⟨congrArg List.tail moved.right.calls, moved.right.limit, moved.right.sink⟩⟩ }
  loads := {
    imports := fun packages h =>
      ⟨h.change (f := fun s => { s with imports := s.imports ++ packages }) {}, {}, {}⟩
    function := fun {_ _ f} h _ _ _ =>
      ⟨h.change (f := fun s => { s with functions := f :: s.functions }) {}, {}, {}⟩ }

variable {C}

/-- The second run comes to the same as the first, or it has stopped at a point that
    the first one passed. -/
theorem Runs.agrees_or_stops (h : C.Runs s t) (p : Point) :
    (evaluate p).outcome s = (evaluate p).outcome t ∧
        C.Runs ((evaluate p).after s) ((evaluate p).after t) ∨
      ∃ e, (evaluate p).outcome t = .error e ∧
        C.past e ((evaluate p).after t).sink ((evaluate p).after s).sink := by
  have ready : C.discipline.Ready p s := by
    cases p with
    | expr | stmt => exact fun _ _ => trivial
    | call => exact ⟨trivial, fun _ _ => trivial⟩
    | load | run => exact ⟨fun _ _ => trivial, fun _ _ => trivial⟩
  have met := (C.closed.meets (t := t) (.inl h) ready).lockstep
  rcases met.agrees_or_stops with ⟨⟨beside, left, right⟩, same⟩ | stopped
  · refine .inl ⟨same, beside.elim id ?_⟩
    rintro ⟨eq, _, _, _, past⟩
    obtain ⟨limit, sink, rfl, h⟩ := h
    rw [eq] at right ⊢
    generalize (evaluate p).after s = s' at left right
    obtain rfl : limit = s.limit := right.limit.symm.trans left.limit
    have meet := C.meet past h rfl right.sink left.sink
    rw [← left.limit] at meet
    exact ⟨s'.limit, s'.sink, rfl, meet⟩
  · exact .inr stopped

end Cutoff

end Treewalk
