import Treewalk.Proofs.Termination

/-! # What a run comes across

A session starts from a fresh state and loads and runs programs, whatever comes
of them. `Visited` are the points that are evaluated on the way, with the states
they are evaluated in. A closed discipline holds at all of them.
-/

namespace Treewalk

open Effect

/-- The states between loads and runs. -/
inductive Session (limit : Nat) (sink : Sink) : State → Prop where
  | fresh : Session limit sink (.fresh limit sink)
  | load {s : State} (p : Program) : Session limit sink s → Session limit sink (p.load.after s)
  | run {s : State} (p : Program) : Session limit sink s → Session limit sink (p.run.after s)

/-- What a session evaluates, and in which state. -/
inductive Visited (limit : Nat) (sink : Sink) : Point → State → Prop where
  | load {s : State} (p : Program) : Session limit sink s → Visited limit sink (.load p) s
  | run {s : State} (p : Program) : Session limit sink s → Visited limit sink (.run p) s
  | enter {p q : Point} {s t : State} :
      Visited limit sink p s → Enters p s q t → Visited limit sink q t

/-- The states in which an evaluation starts or ends. -/
def Reachable (limit : Nat) (sink : Sink) (t : State) : Prop :=
  ∃ p s, Visited limit sink p s ∧ (t = s ∨ t = (evaluate p).after s)

namespace Discipline

variable {D : Discipline} {ev ev' : Evaluator} {s t : State} {p q : Point}

/-- A discipline that holds inside of calls as well. -/
structure Closed (D : Discipline) : Prop where
  opens : ∀ call, D.Opens D call
  loads : D.Loads

section Closed

variable {t : SecondRun}

theorem Closed.layer (closed : D.Closed)
    (meets : ∀ q s t, D.Beside s t → D.Ready q s → D.Meets s t q (ev q) (ev' q))
    (h : D.Beside s t) (ready : D.Ready p s) : D.Meets s t p (ev.layer p) (ev'.layer p) := by
  have below : ∀ n, D.Below n ev ev' := by
    intro n
    refine ⟨?_, ?_, ?_⟩
    · exact fun e _ marked s t h => meets (.expr e) s t h marked
    · exact fun st _ marked s t h => meets (.stmt st) s t h marked
    · exact fun _ f args site s t h => meets (.call f args site) s t h
  refine (below _).layer closed.loads ?_ ?_ h ready
  · intro f args site _
    exact ⟨D, closed.opens _, fun _ => below _⟩
  · rintro program rfl
    exact meets (.load program) s t h ready

/-- Where the levels end, both fail. -/
theorem Closed.unroll (closed : D.Closed) (n : Nat) (h : D.Beside s t) (ready : D.Ready p s) :
    D.Meets s t p (Evaluator.unroll (fun _ => fail .strayString) n p)
      (Evaluator.unroll (fun _ => fail .strayString) n p) := by
  induction n generalizing p s t with
  | zero =>
      cases p with
      | expr | stmt | call | load | run => exact Lockstep.fail h _
  | succ n ih => exact closed.layer (fun _ _ _ => ih) h ready

/-- Two runs that are beside each other stay in lockstep. -/
theorem Closed.meets (closed : D.Closed) (h : D.Beside s t) (ready : D.Ready p s) :
    D.Meets s t p (evaluate p) (evaluate p) := by
  obtain ⟨n, left⟩ := Evaluator.exists_unroll_eq_evaluate p s
  cases t with
  | stopped e sink =>
      exact (closed.unroll n h ready).congr (left _ (Nat.le_refl n) _) nofun
  | running t =>
      obtain ⟨m, right⟩ := Evaluator.exists_unroll_eq_evaluate p t
      -- The two runs need not have the same depth; the sum is enough for both.
      apply (closed.unroll (n + m) h ready).congr
      · exact left _ (Nat.le_add_right n m) _
      · rintro _ ⟨⟩
        exact right _ (Nat.le_add_left m n) _

/-- The evaluator is in lockstep with itself on all syntax. -/
theorem Closed.below (closed : D.Closed) (size : Nat) : D.Below size evaluate evaluate where
  expr e _ marked _ _ h := closed.meets (p := .expr e) h marked
  stmt st _ marked _ _ h := closed.meets (p := .stmt st) h marked
  call _ _ _ _ _ _ h ready := closed.meets h ready

end Closed

/-- One run, as its own companion. -/
theorem Closed.self (closed : D.Closed) (h : D.beside s s) (ready : D.Ready p s) :
    D.Meets s s p (evaluate p) (evaluate p) :=
  closed.meets (t := s) h ready

theorem Closed.enters (closed : D.Closed) (single : D.Single) (h : D.beside s s)
    (ready : D.Ready p s) (enters : Enters p s q t) : D.beside t t ∧ D.Ready q t := by
  apply enters.of_congr (C := fun q t => D.beside t t ∧ D.Ready q t)
  intro ev agrees
  -- Whoever evaluates as we do wherever the discipline holds cannot be told apart.
  rw [evaluate_eq_layer]
  apply Lockstep.eq single
  apply Meets.lockstep
  refine closed.layer (t := s) ?_ h ready
  intro q s t h ready
  apply (closed.meets h ready).congr _ fun _ _ => rfl
  obtain rfl := single.running h
  exact (agrees q s ⟨h, ready⟩).symm

variable {limit : Nat} {sink : Sink}

/-- A closed discipline of single states is an invariant if a fresh state has it
    and every program may be run. -/
structure Invariant (D : Discipline) (limit : Nat) (sink : Sink) : Prop extends Closed D where
  single : D.Single
  callable : ∀ f, D.callable f
  marks : ∀ pos, D.marks pos := by exact fun _ => trivial
  fresh : D.beside (.fresh limit sink) (.fresh limit sink)

namespace Invariant

theorem ready (invariant : D.Invariant limit sink) (p : Program) :
    (∀ f ∈ p.functions, D.callable f) ∧ D.MarksAll p.places :=
  ⟨fun f _ => invariant.callable f, fun pos _ => invariant.marks pos⟩

theorem after (invariant : D.Invariant limit sink) (h : D.beside s s) (ready : D.Ready p s) :
    D.beside ((evaluate p).after s) ((evaluate p).after s) :=
  ((invariant.self h ready).lockstep.moved invariant.single.together).1.beside

theorem session (invariant : D.Invariant limit sink) (h : Session limit sink s) : D.beside s s := by
  induction h with
  | fresh => exact invariant.fresh
  | load p _ ih => exact invariant.after (p := .load p) ih (invariant.ready p)
  | run p _ ih => exact invariant.after (p := .run p) ih (invariant.ready p)

theorem visited (invariant : D.Invariant limit sink) (h : Visited limit sink p s) :
    D.beside s s ∧ D.Ready p s := by
  induction h with
  | load p between | run p between => exact ⟨invariant.session between, invariant.ready p⟩
  | enter _ enters ih => exact invariant.enters invariant.single ih.1 ih.2 enters

theorem reachable (invariant : D.Invariant limit sink) (h : Reachable limit sink t) :
    D.beside t t := by
  obtain ⟨p, s, visited, rfl | rfl⟩ := h
  · exact (invariant.visited visited).1
  · obtain ⟨h, ready⟩ := invariant.visited visited
    exact invariant.after h ready

end Invariant

end Discipline

end Treewalk
