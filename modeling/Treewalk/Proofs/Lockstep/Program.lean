import Treewalk.Proofs.Lockstep.Statement

/-! # Calls and programs in lockstep

A call runs its body under a discipline of its own, since what holds inside of
it need not hold outside. What is asked of the two is said by `Opens`.
-/

namespace Treewalk

theorem Program.load_apply {p : Program} (package : p.package = "main") (s : State) :
    p.load s = (do p.functions.forM loadFunction
                   p.globals.forM (loadGlobal (Stmt.exec callFunction)) : Effect Unit)
      { s with imports := s.imports ++ p.imports } := by
  unfold Program.load Program.loadBy
  rw [if_neg (not_not_intro package)]
  rfl

theorem Program.load_error {p : Program} (other : p.package ≠ "main") (s : State) :
    p.load s = .error ⟨.notRunnable p.package, none⟩ s := by
  unfold Program.load Program.loadBy
  rw [if_pos other]
  rfl

namespace Discipline

variable {D : Discipline} {s : State} {t : SecondRun}

/-- How a call leads from one discipline into another and back. -/
structure Opens (D D' : Discipline) (call : Call) : Prop where
  /-- The second run has as much room for calls as the first. If it has less, the
      first one passes its overflow. -/
  room : ∀ {s t}, D.beside s t → s.room = t.room ∧ s.limit = t.limit ∨
    t.room ≤ s.room ∧ D.past ⟨.stackOverflow t.limit, none⟩ t.sink s.sink
  fits : ∀ {heap ty v}, D.fits heap ty v ↔ D'.fits heap ty v := by exact Iff.rfl
  marks : ∀ {pos}, D.marks pos ↔ D'.marks pos := by exact Iff.rfl
  past : ∀ {e a b}, D.past e a b ↔ D'.past e a b := by exact Iff.rfl
  enter : ∀ {s t}, D.beside s t → s.room ≠ 0 → t.room ≠ 0 →
    D'.beside (s.enterCall call) (t.enterCall call)
  leave : ∀ {s t s' t'}, D.beside s t → s.room ≠ 0 →
    Moves D'.beside (D'.allows .stmt) (s.enterCall call) (t.enterCall call) s' t' →
    Moves D.beside (D.allows .expr) s t s'.leaveCall t'.leaveCall

theorem Opens.answers {D' : Discipline} {call : Call} (opens : D.Opens D' call) {heap : Heap}
    {ty : Option Ty} {v : Value} (h : D'.answers heap ty v) : D.answers heap ty v := by
  unfold Discipline.answers at h ⊢
  split <;> simp only [] at h
  · exact h
  · exact h
  · exact opens.fits.mpr h

/-- A discipline that programs keep while they are loaded. -/
structure Loads (D : Discipline) : Prop where
  imports : ∀ {s t} (packages : List String), D.beside s t →
    Moves D.beside (D.allows .program) s t { s with imports := s.imports ++ packages }
      { t with imports := t.imports ++ packages }
  function : ∀ {s t f}, D.beside s t → D.callable f → f.checked = .ok () →
    s.function? f.name = none →
    Moves D.beside (D.allows .program) s t { s with functions := f :: s.functions }
      { t with functions := f :: t.functions }

theorem marks_callable {f : Func} (callable : D.callable f) : D.marks f.pos :=
  D.callable_marked callable f.pos List.mem_cons_self

namespace Lockstep

/-! ## Calls -/

theorem bindParams {pos : Pos} (mark : D.marks pos) : ∀ {s t} (params : List Param)
    (args : List Value), D.Beside s t → D.Suits s.heap params args →
    D.Lockstep .stmt (Treewalk.bindParams pos params args) (Treewalk.bindParams pos params args)
      s t fun _ _ => True := by
  intro s t params
  induction params generalizing s t with
  | nil => exact fun args h _ => .pure h trivial
  | cons p ps ih =>
      intro args h suits
      cases args with
      | nil => exact .pure h trivial
      | cons v vs =>
          have fit : D.fits s.heap p.ty v := suits (p, v) List.mem_cons_self
          have declared := declare (b := ⟨v, p.ty, .variable⟩) h p.name fit fun _ => nofun
          apply (located mark declared).bind
          intro _ s' t' moved _
          apply ih vs moved.beside
          intro pv member
          exact moved.fits (suits pv (List.mem_cons_of_mem _ member))

theorem run {f : Func} {args : List Value} {body body' : Effect Ending} (h : D.Beside s t)
    (mark : D.marks f.pos) (result : s.result? = f.result) (suits : D.Suits s.heap f.params args)
    (runs : Runs D body body') :
    D.Lockstep .stmt (f.run args body) (f.run args body') s t
      fun v u => D.answers u.heap f.result v := by
  unfold Func.run
  apply (bindParams mark f.params args h suits).bind
  intro _ s₁ t₁ moved _
  have current : s₁.result? = f.result := (D.result_kept moved.left).trans result
  apply (runs s₁ t₁ moved.beside).bind
  intro ending s₂ t₂ moved ended
  rw [current] at ended
  cases ending with
  | done v => exact .pure moved.beside ended
  | next =>
      cases f.result with
      | none => exact .pure moved.beside rfl
      | some ty => exact .failAt moved.beside mark _

theorem enter {D' : Discipline} {f : Func} {args : List Value} {site : Pos}
    {body body' : Effect Ending} (opens : D.Opens D' ⟨f.name, site, f.result⟩)
    (h : D.Beside s t) (room : s.room ≠ 0) (room' : ∀ u, t = .running u → u.room ≠ 0)
    (callable : D.callable f) (suits : D.Suits s.heap f.params args) (runs : Runs D' body body') :
    D.Lockstep .expr (f.enter args site body) (f.enter args site body') s t
      fun v u => D.answers u.heap f.result v := by
  have entered : D'.Beside (s.enterCall ⟨f.name, site, f.result⟩)
      (t.map (State.enterCall ⟨f.name, site, f.result⟩)) := by
    cases t with
    | running t => exact opens.enter h room (room' t rfl)
    | stopped e sink => exact ⟨opens.enter h.1 room room, opens.past.mp h.2⟩
  have suits' : D'.Suits s.heap f.params args := fun pv member => opens.fits.mp (suits pv member)
  have inside := run entered (opens.marks.mp (marks_callable callable)) rfl suits' runs
  exact inside.between h (fun beside => opens.leave beside room) opens.marks.mpr opens.past.mpr
    fun _ _ answer => opens.answers answer

/-! ## Programs -/

theorem loadFunction (loads : D.Loads) {f : Func} (callable : D.callable f) (h : D.Beside s t) :
    D.Lockstep .program (Treewalk.loadFunction f) (Treewalk.loadFunction f) s t
      fun _ _ => True := by
  have mark := marks_callable callable
  have checking : D.Lockstep .program (Effect.located f.pos (Effect.ofExcept f.checked))
      (Effect.located f.pos (Effect.ofExcept f.checked)) s t fun _ _ => f.checked = .ok () :=
    located mark (.ofExcept h rfl fun _ ok => ok)
  unfold Treewalk.loadFunction
  apply checking.bind
  intro _ s' t' moved checked
  apply Lockstep.get moved.beside
  intro u view
  rw [← view.function]
  cases found : s'.function? f.name with
  | some g => exact .failAt moved.beside mark _
  | none =>
      exact change moved.beside (fun beside => loads.function beside callable checked found) trivial

theorem loadGlobal {exec exec' : Stmt → Effect Ending} {st : Stmt} (h : D.Beside s t)
    (mark : D.marks st.pos) (runs : Runs D (exec st) (exec' st)) :
    D.Lockstep .program (Treewalk.loadGlobal exec st) (Treewalk.loadGlobal exec' st) s t
      fun _ _ => True := by
  have running : D.Lockstep .program (discard (exec st)) (discard (exec' st)) s t
      fun _ _ => True :=
    ((runs _ _ h).discard fun _ _ _ => trivial).lift
  unfold Treewalk.loadGlobal
  cases st.declares? with
  | none => exact running
  | some x =>
      apply Lockstep.get h
      intro u view
      rw [← view.function]
      cases s.function? x with
      | some f => exact .failAt h mark _
      | none => exact running

/-- One thing after the other over a list. -/
theorem forM {α : Type} {f g : α → Effect PUnit} {xs : List α}
    (each : ∀ x ∈ xs, ∀ {s t}, D.Beside s t →
      D.Lockstep .program (f x) (g x) s t fun _ _ => True) :
    ∀ {s t}, D.Beside s t → D.Lockstep .program (xs.forM f) (xs.forM g) s t fun _ _ => True := by
  induction xs with
  | nil => exact fun h => .pure h trivial
  | cons x xs ih =>
      intro s t h
      unfold List.forM
      apply (each x List.mem_cons_self h).bind
      intro _ s' t' moved _
      exact ih (fun y member => each y (List.mem_cons_of_mem x member)) moved.beside

theorem loadBy {exec exec' : Stmt → Effect Ending} {p : Program} (loads : D.Loads)
    (callable : ∀ f ∈ p.functions, D.callable f) (marked : D.MarksAll p.places)
    (runs : ∀ st ∈ p.globals, Runs D (exec st) (exec' st)) (h : D.Beside s t) :
    D.Lockstep .program (p.loadBy exec) (p.loadBy exec') s t fun _ _ => True := by
  unfold Program.loadBy
  split
  · exact .fail h _
  · have importing : D.Lockstep .program
        (modify fun s => { s with imports := s.imports ++ p.imports })
        (modify fun s => { s with imports := s.imports ++ p.imports }) s t fun _ _ => True :=
      change h (loads.imports p.imports) trivial
    apply importing.bind
    intro _ s₁ t₁ moved _
    apply (forM (fun f member _ _ => loadFunction loads (callable f member)) moved.beside).bind
    intro _ s₂ t₂ moved _
    apply forM _ moved.beside
    intro st member s t h
    have mark := marked _ (Program.global_places_subset member st.pos_mem_places)
    exact loadGlobal h mark (runs st member)

theorem mainBy {call call' : Caller} (h : D.Beside s t)
    (calls : ∀ {f s t}, D.Beside s t → D.callable f →
      D.Lockstep .expr (call f [] ⟨0, 0⟩) (call' f [] ⟨0, 0⟩) s t
        fun v u => D.answers u.heap f.result v) :
    D.Lockstep .program (Treewalk.mainBy call) (Treewalk.mainBy call') s t fun _ _ => True := by
  obtain ⟨_, here⟩ := h.exists
  unfold Treewalk.mainBy
  apply Lockstep.get h
  intro u view
  rw [← view.function]
  cases found : s.function? "main" with
  | none => exact .fail h _
  | some f =>
      have callable := D.callable_named here found
      dsimp only
      split
      · exact .failAt h (marks_callable callable) _
      · exact ((calls h callable).discard fun _ _ _ => trivial).lift

end Lockstep

end Discipline

end Treewalk
