import Treewalk.Proofs.Outline

/-! # Every evaluation ends

Each level of evaluation asks for smaller syntax at the same depth of calls, or
for a body one call deeper, where there is room for one call less. So the
evaluator is what its own layer makes of it, and finitely many layers on top of
anything at all are the evaluator.
-/

namespace Treewalk

open Effect

namespace Discipline

variable {D : Discipline} {s : State} {t : SecondRun}

/-! ## Runs at one depth -/

/-- Runs of one state with given calls, on functions of some size at most. -/
def level (limit size : Nat) (calls : List Call) : Discipline :=
  outlined ⟨fun o => o.limit = limit ∧ o.calls = calls, by
    intro o h
    unfold Outline.enterBlock
    split <;> exact h⟩ fun f => sizeOf f.body ≤ size

variable {limit size : Nat} {calls : List Call}

theorem single_level : (level limit size calls).Single := ⟨fun h => h.1, id⟩

theorem loads_level : (level limit size calls).Loads := loads_outlined

theorem opens_level (call : Call) :
    (level limit size calls).Opens (level limit size (call :: calls)) call :=
  opens_outlined fun h _ => ⟨h.1, congrArg (call :: ·) h.2⟩

theorem room_level (h : (level limit size calls).Beside s t) : s.room = limit - calls.length := by
  obtain rfl := single_level.running h
  obtain ⟨_, ⟨same, stack⟩, _⟩ := h
  rw [State.room, ← same, ← stack]
  rfl

theorem meets_callWithin (room : Nat) : ∀ {calls : List Call}, limit - calls.length = room →
    ∀ f args site s t, (level limit size calls).Beside s t →
      (level limit size calls).Ready (.call f args site) s →
      (level limit size calls).Meets s t (.call f args site) (callWithin room f args site)
        (callWithin room f args site) := by
  -- The calls grow by one as the room shrinks by one, so both vary in the induction.
  induction room with
  | zero =>
      intro calls _ f args site s t h _
      obtain rfl := single_level.running h
      apply Lockstep.congr rfl _ (Lockstep.fail h (.stackOverflow s.limit))
      rintro _ ⟨⟩
      rfl
  | succ room ih =>
      intro calls deep f args site s t h ready
      have inside : limit - (⟨f.name, site, f.result⟩ :: calls : List Call).length = room := by
        simp only [List.length_cons]
        omega
      have runs := (below_calling (ih inside) (sizeOf f.body)).inOrder (Nat.le_refl _)
        fun _ _ => trivial
      rw [← execEach_eq_each] at runs
      have some : s.room ≠ 0 := by rw [room_level h]; omega
      obtain rfl := single_level.running h
      exact .enter (opens_level _) h some (by rintro _ ⟨⟩; exact some) ready.1 ready.2 runs

theorem meets_within {room : Nat} (deep : limit - calls.length = room) (f : Func)
    (args : List Value) (site : Pos) (s : State) (t : SecondRun)
    (h : (level limit size calls).Beside s t)
    (ready : (level limit size calls).Ready (.call f args site) s) :
    (level limit size calls).Meets s t (.call f args site) (callWithin room f args site)
      (callFunction f args site) := by
  apply (meets_callWithin room deep f args site s t h ready).congr rfl
  intro u running
  obtain rfl := single_level.running h
  cases running
  rw [callFunction, room_level h, deep]

theorem meets_callFunction (f : Func) (args : List Value) (site : Pos) (s : State) (t : SecondRun)
    (h : (level limit size calls).Beside s t)
    (ready : (level limit size calls).Ready (.call f args site) s) :
    (level limit size calls).Meets s t (.call f args site) (callFunction f args site)
      (callFunction f args site) := by
  apply (meets_within rfl f args site s t h ready).congr _ fun _ _ => rfl
  rw [callFunction, room_level h]

end Discipline

open Discipline

/-! ## The evaluator is its own layer -/

/-- The functions that come with a point. -/
def Point.functions : Point → List Func
  | .expr _ | .stmt _ => []
  | .call f _ _ => [f]
  | .load p | .run p => p.functions

/-- All functions at hand have bodies of some size at most. -/
def Point.Bounded (size : Nat) (p : Point) (s : State) : Prop :=
  (∀ f ∈ s.functions, sizeOf f.body ≤ size) ∧ ∀ f ∈ p.functions, sizeOf f.body ≤ size

theorem Func.sizeOf_body_lt (f : Func) : sizeOf f.body < sizeOf f := by
  cases f
  simp only [Func.mk.sizeOf_spec]
  omega

theorem Point.exists_bounded (p : Point) (s : State) : ∃ size, p.Bounded size s := by
  have small : ∀ {f : Func} {fs : List Func}, f ∈ fs → sizeOf f.body < sizeOf fs :=
    fun member => Nat.lt_trans (Func.sizeOf_body_lt _) (List.sizeOf_lt_of_mem member)
  refine ⟨sizeOf s.functions + sizeOf p.functions, ?_, ?_⟩
  · intro f member
    have := small member
    omega
  · intro f member
    have := small member
    omega

theorem Discipline.beside_level {size : Nat} {p : Point} {s : State} (bounded : p.Bounded size s) :
    (level s.limit size s.calls).Beside s s :=
  ⟨rfl, ⟨rfl, rfl⟩, bounded.1⟩

theorem callFunction_eq_callLayer (f : Func) (args : List Value) (site : Pos) (s : State) :
    callFunction f args site s = evaluate.callLayer f args site s := by
  obtain ⟨size, bounded⟩ := Point.exists_bounded (.call f args site) s
  have h := beside_level bounded
  rw [Evaluator.callLayer_apply, callFunction]
  cases room : s.room with
  | zero => rfl
  | succ r =>
      have deep : s.limit - (⟨f.name, site, f.result⟩ :: s.calls : List Call).length = r := by
        simp only [State.room, List.length_cons] at room ⊢
        omega
      -- One call deeper, calls with the room that is left are calls with the room
      -- that the state shows.
      have runs : Lockstep.Runs (level s.limit size (⟨f.name, site, f.result⟩ :: s.calls)) _ _ :=
        (below_calling (meets_within deep) (sizeOf f.body)).inOrder (Nat.le_refl _)
          fun _ _ => trivial
      have some : s.room ≠ 0 := by omega
      have there : ∀ u, SecondRun.running s = .running u → u.room ≠ 0 := by
        rintro _ ⟨⟩
        exact some
      rw [if_neg (Nat.succ_ne_zero r), callWithin, execEach_eq_each]
      exact Lockstep.eq single_level (.enter (opens_level _) h some there
        (bounded.2 f List.mem_cons_self) (fun _ _ => trivial) runs)

theorem evaluate_eq_layer (p : Point) : evaluate p = evaluate.layer p := by
  cases p with
  | expr e => exact eval_eq_exprLayer callFunction e
  | stmt st => exact exec_eq_stmtLayer callFunction st
  | call f args site =>
      funext s
      exact callFunction_eq_callLayer f args site s
  | load | run => rfl

/-! ## Finitely many layers -/

namespace Discipline

variable {limit size : Nat} {calls : List Call} {s : State} {t : SecondRun} {p : Point}
  {ev : Evaluator}

theorem ready_level : (level limit size calls).Ready p s ↔
    ∀ f ∈ p.functions, sizeOf f.body ≤ size := by
  cases p with
  | expr | stmt | load | run => simp [Ready, MarksAll, Point.functions, level, outlined]
  | call f args site => simp [Ready, Point.functions, Suits, level, outlined]

/-- At one depth the evaluator is in lockstep with itself. -/
theorem meets_level (h : (level limit size calls).Beside s t)
    (ready : (level limit size calls).Ready p s) :
    (level limit size calls).Meets s t p (evaluate p) (evaluate p) := by
  have below : ∀ n, (level limit size calls).Below n evaluate evaluate :=
    below_calling meets_callFunction
  cases p with
  | expr e => exact (below _).expr e (Nat.lt_succ_self _) ready s t h
  | stmt st => exact (below _).stmt st (Nat.lt_succ_self _) ready s t h
  | call f args site => exact meets_callFunction f args site s t h ready
  | load p => exact (below _).loadLayer loads_level h ready
  | run p => exact (below _).runLayer ((below _).loadLayer loads_level h ready)

theorem meets_of_eq (h : (level limit size calls).Beside s t)
    (ready : (level limit size calls).Ready p s) (same : ev p s = evaluate p s) :
    (level limit size calls).Meets s t p (ev p) (evaluate p) :=
  (meets_level h ready).congr same.symm fun _ _ => rfl

theorem below_of_eq {n : Nat}
    (same : ∀ q t, q.Bounded size t → t.room = limit - calls.length → q.size < n →
      ev q t = evaluate q t) : (level limit size calls).Below n ev evaluate := by
  have agree : ∀ {q s t}, (level limit size calls).Beside s t →
      (level limit size calls).Ready q s → q.size < n → ev q s = evaluate q s := by
    intro q s t h ready small
    have room := room_level h
    obtain rfl := single_level.running h
    exact same _ _ ⟨h.2.2, ready_level.mp ready⟩ room small
  refine ⟨?_, ?_, ?_⟩
  · intro e small marked s t h
    exact meets_of_eq h marked (agree h marked small)
  · intro st small marked s t h
    exact meets_of_eq h marked (agree h marked small)
  · intro positive f args site s t h ready
    exact meets_of_eq h ready (agree h ready positive)

end Discipline

/-- The evaluation of one point in one state can ask for that of another: of
    smaller syntax, or of a body where there is less room for calls. -/
def Point.Inside (size : Nat) (q : Point) (t : State) (p : Point) (s : State) : Prop :=
  t.room = s.room ∧ q.size < p.size ∨ t.room < s.room ∧ q.size < size

/-- A body may be larger than the call, but it takes up room worth `size`. -/
theorem Point.Inside.decreases {size : Nat} {q p : Point} {t s : State}
    (inside : q.Inside size t p s) : t.room * size + q.size < s.room * size + p.size := by
  rcases inside with ⟨room, small⟩ | ⟨less, small⟩
  · rw [room]
    omega
  · have deeper : (t.room + 1) * size ≤ s.room * size := Nat.mul_le_mul_right size less
    rw [Nat.succ_mul] at deeper
    omega

namespace Evaluator

variable {size : Nat} {p : Point} {s : State}

/-- A layer over anything that agrees with the evaluator inside of a point is the
    evaluator at that point. -/
theorem layer_eq_evaluate {ev : Evaluator} (bounded : p.Bounded size s)
    (same : ∀ q t, q.Bounded size t → q.Inside size t p s → ev q t = evaluate q t) :
    ev.layer p s = evaluate p s := by
  have h := beside_level bounded
  rw [evaluate_eq_layer]
  apply Lockstep.eq single_level
  apply Meets.lockstep
  refine Below.layer ?_ loads_level ?_ ?_ h (ready_level.mpr bounded.2)
  · apply below_of_eq
    intro q t known room small
    exact same q t known (.inl ⟨room, small⟩)
  · rintro f args site rfl
    refine ⟨_, opens_level _, fun room => below_of_eq ?_⟩
    intro q t known deeper small
    have fits : sizeOf f.body ≤ size := bounded.2 f List.mem_cons_self
    have less : t.room < s.room := by
      simp only [State.room, List.length_cons] at room deeper ⊢
      omega
    exact same q t known (.inr ⟨less, Nat.lt_of_lt_of_le small fits⟩)
  · rintro program rfl
    have known : (Point.load program).Bounded size s := bounded
    apply meets_of_eq h (ready_level.mpr known.2)
    exact same _ s known (.inl ⟨rfl, Nat.lt_succ_self _⟩)

theorem unroll_eq_evaluate (stop : Evaluator) {n : Nat} (bounded : p.Bounded size s)
    (enough : s.room * size + p.size < n) : unroll stop n p s = evaluate p s := by
  induction n generalizing p s with
  | zero => omega
  | succ n ih =>
      apply layer_eq_evaluate bounded
      intro q t known inside
      have := inside.decreases
      exact ih known (by omega)

/-- With enough layers, neither their number nor what is below them matters. -/
theorem exists_unroll_eq_evaluate (p : Point) (s : State) :
    ∃ n, ∀ m, n ≤ m → ∀ stop, unroll stop m p s = evaluate p s := by
  obtain ⟨size, bounded⟩ := p.exists_bounded s
  refine ⟨s.room * size + p.size + 1, ?_⟩
  intro m enough stop
  exact unroll_eq_evaluate stop bounded enough

end Evaluator

/-! ## What every evaluation keeps -/

theorem outline_after (p : Point) (s : State) : ((evaluate p).after s).outline = s.outline := by
  obtain ⟨size, bounded⟩ := p.exists_bounded s
  exact (meets_level (beside_level bounded) (ready_level.mpr bounded.2)).lockstep.allowed

theorem calls_after (p : Point) (s : State) : ((evaluate p).after s).calls = s.calls :=
  congrArg Outline.calls (outline_after p s)

theorem limit_after (p : Point) (s : State) : ((evaluate p).after s).limit = s.limit :=
  congrArg Outline.limit (outline_after p s)

/-! ## What an evaluation asks for -/

/-- The evaluation of `p` in `s` asks for that of `q` in `t`: were the answer
    another one there and only there, the outcome would be, too. Nothing that is
    evaluated is missed, since a failure always comes through. -/
def Enters (p : Point) (s : State) (q : Point) (t : State) : Prop :=
  ∃ ev : Evaluator, (∀ q' t', (q', t') ≠ (q, t) → ev q' t' = evaluate q' t') ∧
    ev.layer p s ≠ evaluate p s

/-- What has to agree with the evaluator for a layer to do so holds wherever the
    layer asks. -/
theorem Enters.of_congr {C : Point → State → Prop} {p q : Point} {s t : State}
    (enters : Enters p s q t)
    (congr : ∀ ev : Evaluator, (∀ q t, C q t → ev q t = evaluate q t) →
      ev.layer p s = evaluate p s) : C q t := by
  obtain ⟨ev, agrees, differs⟩ := enters
  by_contra outside
  apply differs
  apply congr
  intro q' t' inside
  apply agrees
  rintro same
  obtain ⟨rfl, rfl⟩ := Prod.mk.injEq .. ▸ same
  exact outside inside

theorem Enters.inside {size : Nat} {p q : Point} {s t : State} (bounded : p.Bounded size s)
    (enters : Enters p s q t) : q.Bounded size t ∧ q.Inside size t p s := by
  apply enters.of_congr (C := fun q t => q.Bounded size t ∧ q.Inside size t p s)
  intro ev agrees
  apply Evaluator.layer_eq_evaluate bounded
  intro q' t' known inside
  exact agrees q' t' ⟨known, inside⟩

/-- Room and size decrease from an evaluation to what it asks for, the room first. -/
theorem Enters.decreases {p q : Point} {s t : State} (enters : Enters p s q t) :
    Prod.Lex (· < ·) (· < ·) (t.room, q.size) (s.room, p.size) := by
  obtain ⟨size, bounded⟩ := p.exists_bounded s
  rcases (enters.inside bounded).2 with ⟨room, small⟩ | ⟨less, _⟩
  · rw [room]
    exact .right _ small
  · exact .left _ _ less

namespace Enters

/-- A failure that would come through shows that the evaluator asks. -/
theorem of_failure {p q : Point} {s t : State}
    (through : ∀ ev : Evaluator, (∀ q' t', (q', t') ≠ (q, t) → ev q' t' = evaluate q' t') →
      ∀ e u, ev q t = .error e u → ((ev.layer p).after s).limit = u.limit) : Enters p s q t := by
  classical
  -- No evaluation changes the limit, so a failure that does so is a new outcome.
  let failure (q : Point) : EStateM.Result RunError State q.Outcome :=
    .error ⟨.strayString, none⟩ { t with limit := s.limit + 1 }
  let ev : Evaluator := fun q' t' => if (q', t') = (q, t) then failure q' else evaluate q' t'
  have agrees : ∀ q' t', (q', t') ≠ (q, t) → ev q' t' = evaluate q' t' :=
    fun q' t' other => if_neg other
  refine ⟨ev, agrees, ?_⟩
  intro same
  have raised := through ev agrees _ _ (if_pos rfl)
  have kept := limit_after p s
  unfold Effect.after at raised kept
  rw [same, kept] at raised
  exact absurd raised (Nat.succ_ne_self s.limit).symm

/-- A run leads to a call of `main`. -/
theorem main {p : Program} {s t : State} {f : Func} (loaded : p.load s = .ok () t)
    (found : t.function? "main" = some f) (params : f.params = []) (result : f.result = none) :
    Enters (.run p) s (.call f [] ⟨0, 0⟩) t := by
  apply of_failure
  intro ev agrees e u failed
  have load : ev (.load p) s = .ok () t := (agrees _ _ (by simp)).trans loaded
  have start : mainBy (fun f args site => ev (.call f args site)) t = .error e u := by
    rw [mainBy, get_bind, found]
    simp only [params, result, List.isEmpty_nil, Option.isSome_none, Bool.not_true, Bool.or_false,
      Bool.false_eq_true, if_false]
    exact bind_error failed
  have run : ev.layer (.run p) s = .error e u := (bind_ok load).trans start
  unfold Effect.after
  rw [run]

/-- A call with room leads to the first statement of its body. -/
theorem body {f : Func} {site : Pos} {s : State} {st : Stmt} {rest : List Stmt}
    (room : s.room ≠ 0) (params : f.params = []) (starts : f.body = st :: rest) :
    Enters (.call f [] site) s (.stmt st) (s.enterCall ⟨f.name, site, f.result⟩) := by
  apply of_failure
  intro ev agrees e u failed
  have statements : inOrder (ev.each f.body) (s.enterCall ⟨f.name, site, f.result⟩) =
      .error e u := by
    rw [starts]
    exact bind_error failed
  have ran : f.run [] (inOrder (ev.each f.body)) (s.enterCall ⟨f.name, site, f.result⟩) =
      .error e u := by
    rw [Func.run, params]
    exact (bind_ok rfl).trans (bind_error statements)
  have call : ev.layer (.call f [] site) s = .error e u.leaveCall := by
    rw [Evaluator.layer, Evaluator.callLayer_apply, if_neg room, Func.enter, inCall, between, ran]
  unfold Effect.after
  rw [call]
  rfl

end Enters

/-- The evaluator does one level after the other. From each level to the next
    the room for calls decreases, or it stays and the syntax gets smaller; so no
    evaluation goes on for ever, and from some number of levels on the outcome is
    the same whatever stands below them. -/
theorem evaluation_terminates :
    (∀ p, evaluate p = evaluate.layer p) ∧
    (∀ p s q t, Enters p s q t →
      Prod.Lex (· < ·) (· < ·) (t.room, q.size) (s.room, p.size)) ∧
    WellFounded (fun inner outer : Point × State => Enters outer.1 outer.2 inner.1 inner.2) ∧
    (∀ p s, ∃ n, ∀ m, n ≤ m → ∀ stop, Evaluator.unroll stop m p s = evaluate p s) := by
  refine ⟨evaluate_eq_layer, fun _ _ _ _ => Enters.decreases, ?_,
    Evaluator.exists_unroll_eq_evaluate⟩
  have measured : WellFounded fun inner outer : Point × State =>
      Prod.Lex (· < ·) (· < ·) (inner.2.room, inner.1.size) (outer.2.room, outer.1.size) :=
    InvImage.wf _ (Prod.lex Nat.lt_wfRel Nat.lt_wfRel).wf
  exact Subrelation.wf Enters.decreases measured

/-- A function that calls itself. -/
def endless : Func := ⟨⟨1, 1⟩, "main", [], none, [.expr ⟨2, 1⟩ (.call ⟨2, 1⟩ "main" [])]⟩

/-- The state in which `endless` is all there is. -/
def endlessLoaded : State := { State.fresh 3 .silent with functions := [endless] }

/-- Even a function that calls itself is done after some number of levels. -/
theorem evaluation_terminates_endless :
    Enters (.call endless [] ⟨0, 0⟩) endlessLoaded
      (.stmt (.expr ⟨2, 1⟩ (.call ⟨2, 1⟩ "main" [])))
      (endlessLoaded.enterCall ⟨"main", ⟨0, 0⟩, none⟩) ∧
    Prod.Lex (· < ·) (· < ·)
      (2, (Point.stmt (.expr ⟨2, 1⟩ (.call ⟨2, 1⟩ "main" []))).size) (3, 0) ∧
    ∃ n, ∀ m, n ≤ m → ∀ stop, Evaluator.unroll stop m (.call endless [] ⟨0, 0⟩) endlessLoaded =
      callFunction endless [] ⟨0, 0⟩ endlessLoaded := by
  obtain ⟨_, decreases, _, outcomes⟩ := evaluation_terminates
  have entered : Enters (.call endless [] ⟨0, 0⟩) endlessLoaded
      (.stmt (.expr ⟨2, 1⟩ (.call ⟨2, 1⟩ "main" [])))
      (endlessLoaded.enterCall ⟨"main", ⟨0, 0⟩, none⟩) := .body (by decide) rfl rfl
  exact ⟨entered, decreases _ _ _ _ entered, outcomes _ _⟩

end Treewalk
