import Treewalk.Proofs.Lockstep.Program

/-! # One level of evaluation at a time

The evaluator calls itself on parts of the syntax and on the bodies of
functions. Here it is cut open at these calls: a `layer` evaluates one point of
a program and asks a given evaluator for everything below. The depth of calls
is read off the state in every layer.
-/

namespace Treewalk

open Effect

/-- What can be evaluated. -/
inductive Point where
  | expr (e : Expr)
  | stmt (st : Stmt)
  /-- A function whose arguments are known. -/
  | call (f : Func) (args : List Value) (site : Pos)
  | load (p : Program)
  | run (p : Program)

namespace Point

/-- What the evaluation of a point gives. -/
abbrev Outcome : Point → Type
  | .expr _ | .call _ _ _ => Value
  | .stmt _ => Ending
  | .load _ | .run _ => Unit

/-- The size of the syntax at a point. A call has none: its body is not a part
    of what calls it. -/
noncomputable def size : Point → Nat
  | .expr e => sizeOf e
  | .stmt st => sizeOf st
  | .call _ _ _ => 0
  | .load p => sizeOf p
  | .run p => sizeOf p + 1

end Point

theorem Program.sizeOf_lt_of_mem_globals {p : Program} {st : Stmt} (member : st ∈ p.globals) :
    sizeOf st < sizeOf p := by
  obtain ⟨package, imports, items⟩ := p
  obtain ⟨item, listed, same⟩ := List.mem_filterMap.mp member
  have small := List.sizeOf_lt_of_mem listed
  cases item with
  | func f => cases same
  | stmt st' =>
      cases same
      simp only [Item.stmt.sizeOf_spec, Program.mk.sizeOf_spec] at small ⊢
      omega

/-- A way to evaluate every point. -/
abbrev Evaluator := (p : Point) → Effect p.Outcome

namespace Evaluator

/-- The evaluator with a given way to make calls. -/
def calling (call : Caller) : Evaluator
  | .expr e => e.eval call
  | .stmt st => st.exec call
  | .call f args site => call f args site
  | .load p => p.load
  | .run p => p.run

variable (ev : Evaluator)

def operand (e : Expr) : Operand := ⟨e, ev (.expr e)⟩

def exprLayer : Expr → Effect Value
  | .int pos n => located pos (ofExcept (Value.ofConstant n))
  | .float _ x => return .float x.toFloat32
  | .bool _ b => return .bool b
  | .str pos _ => located pos (fail .strayString)
  | .name pos x => located pos (readName x)
  | .unary pos op e => located pos (unary op (ev.operand e))
  | .binary pos op l r => located pos (binary op (ev.operand l) (ev.operand r))
  | .convert pos ty e => located pos (convert ty (ev.operand e))
  | .index pos a i => located pos (element (ev.operand a) (ev.operand i))
  | .call pos callee args =>
      located pos (invoke (fun f args site => ev (.call f args site)) pos callee
        (args.map ev.operand))
  | .print pos package style args => located pos (printing package style (args.map ev.operand))

def each (ss : List Stmt) : List (Effect Ending) := ss.map fun st => ev (.stmt st)

def option : Option Stmt → Effect Ending
  | none => return .next
  | some st => ev (.stmt st)

def stmtLayer : Stmt → Effect Ending
  | .var pos x ty init =>
      located pos do
        declareVar (fun e => ev (.expr e)) x ty init
        return .next
  | .const pos x ty e =>
      located pos do
        declareConst (fun e => ev (.expr e)) x ty e
        return .next
  | .assign pos target op e =>
      located pos do
        assign (fun e => ev (.expr e)) target op e
        return .next
  | .bump pos target up =>
      located pos do
        bump (fun e => ev (.expr e)) target up
        return .next
  | .if_ pos init cond body orelse =>
      located pos <|
        conditional (ev.option init) (ev.operand cond) (inOrder (ev.each body)) (ev.option orelse)
  | .return_ pos e => located pos (finish (fun e => ev (.expr e)) e)
  | .block pos body => located pos (inBlock (inOrder (ev.each body)))
  | .expr pos e =>
      located pos do
        discard (ev (.expr e))
        return .next

/-- A call: its body runs if there is room for one more. -/
def callLayer (f : Func) (args : List Value) (site : Pos) : Effect Value := do
  if (← get).room = 0 then fail (.stackOverflow (← get).limit)
  else f.enter args site (inOrder (ev.each f.body))

def runLayer (p : Program) : Effect Unit := do
  ev (.load p)
  mainBy fun f args site => ev (.call f args site)

/-- One level of evaluation. -/
def layer : Evaluator
  | .expr e => ev.exprLayer e
  | .stmt st => ev.stmtLayer st
  | .call f args site => ev.callLayer f args site
  | .load p => p.loadBy fun st => ev (.stmt st)
  | .run p => ev.runLayer p

/-- Some number of levels, and below them whatever is given. -/
def unroll (stop : Evaluator) : Nat → Evaluator
  | 0 => stop
  | n + 1 => (unroll stop n).layer

end Evaluator

/-- The evaluator that runs programs. -/
def evaluate : Evaluator := .calling callFunction

/-! ## The evaluator is made of layers -/

theorem operands_eq_map (call : Caller) (es : List Expr) :
    operands call es = es.map (Evaluator.calling call).operand := by
  induction es with
  | nil => rfl
  | cons e es ih => rw [operands, ih, List.map_cons]; rfl

theorem execEach_eq_each (call : Caller) (ss : List Stmt) :
    execEach call ss = (Evaluator.calling call).each ss := by
  induction ss with
  | nil => rfl
  | cons st ss ih => rw [execEach, ih]; rfl

theorem execOption_eq_option (call : Caller) (o : Option Stmt) :
    execOption call o = (Evaluator.calling call).option o := by
  cases o <;> rfl

theorem eval_eq_exprLayer (call : Caller) (e : Expr) :
    e.eval call = (Evaluator.calling call).exprLayer e := by
  cases e with
  | call pos callee args => rw [Expr.eval, operands_eq_map]; rfl
  | print pos package style args => rw [Expr.eval, operands_eq_map]; rfl
  | int | float | bool | str | name | unary | binary | convert | index => rfl

theorem exec_eq_stmtLayer (call : Caller) (st : Stmt) :
    st.exec call = (Evaluator.calling call).stmtLayer st := by
  cases st with
  | if_ pos init cond body orelse =>
      rw [Stmt.exec, execOption_eq_option, execOption_eq_option, execEach_eq_each]
      rfl
  | block pos body =>
      rw [Stmt.exec, execEach_eq_each]
      rfl
  | var | const | assign | bump | return_ | expr => rfl

theorem Evaluator.callLayer_apply (ev : Evaluator) (f : Func) (args : List Value) (site : Pos)
    (s : State) :
    ev.callLayer f args site s =
      if s.room = 0 then fail (.stackOverflow s.limit) s
      else f.enter args site (inOrder (ev.each f.body)) s := by
  change (if s.room = 0 then _ else _ : Effect Value) s = _
  split <;> rfl

/-! ## Layers in lockstep -/

namespace Discipline

variable {D : Discipline} {ev ev' : Evaluator} {s : State} {t : SecondRun} {p : Point}

variable (D) in
/-- What has to be known before a point is evaluated. -/
def Ready : Point → State → Prop
  | .expr e, _ => D.MarksAll e.places
  | .stmt st, _ => D.MarksAll st.places
  | .call f args _, s => D.callable f ∧ D.Suits s.heap f.params args
  | .load p, _ | .run p, _ => (∀ f ∈ p.functions, D.callable f) ∧ D.MarksAll p.places

variable (D) in
/-- Two evaluations of a point in lockstep. -/
def Meets (s : State) (t : SecondRun) : (p : Point) → Effect p.Outcome → Effect p.Outcome → Prop
  | .expr e, x, y => D.Lockstep .expr x y s t (D.Yields e s)
  | .stmt _, x, y => D.Lockstep .stmt x y s t fun r u => D.ends u.heap s.result? r
  | .call f _ _, x, y => D.Lockstep .expr x y s t fun v u => D.answers u.heap f.result v
  | .load _, x, y | .run _, x, y => D.Lockstep .program x y s t fun _ _ => True

theorem Meets.congr {x x' y y' : Effect p.Outcome} (left : x s = x' s)
    (right : ∀ u, t = .running u → y u = y' u) (h : D.Meets s t p x y) : D.Meets s t p x' y' := by
  cases p with
  | expr | stmt | call | load | run => exact Lockstep.congr left right h

/-- What holds of every point. -/
theorem Meets.lockstep {x y : Effect p.Outcome} (h : D.Meets s t p x y) :
    D.Lockstep .program x y s t fun _ _ => True := by
  cases p with
  | expr | stmt | call => exact (Lockstep.lift h).imp fun _ _ _ _ _ => trivial
  | load | run => exact h

variable (D) in
/-- Two evaluators that are in lockstep on calls and on all syntax below some
    size. -/
structure Below (size : Nat) (ev ev' : Evaluator) : Prop where
  expr : ∀ e, sizeOf e < size → D.MarksAll e.places → ∀ s t, D.Beside s t →
    D.Meets s t (.expr e) (ev (.expr e)) (ev' (.expr e))
  stmt : ∀ st, sizeOf st < size → D.MarksAll st.places → ∀ s t, D.Beside s t →
    D.Meets s t (.stmt st) (ev (.stmt st)) (ev' (.stmt st))
  call : 0 < size → ∀ f args site s t, D.Beside s t → D.Ready (.call f args site) s →
    D.Meets s t (.call f args site) (ev (.call f args site)) (ev' (.call f args site))

namespace Below

variable {size : Nat}

theorem alike (below : D.Below size ev ev') {e : Expr} (small : sizeOf e < size)
    (marked : D.MarksAll e.places) : D.Alike (ev.operand e) (ev'.operand e) :=
  ⟨rfl, marked _ e.pos_mem_places, below.expr e small marked _ _⟩

theorem evaluates (below : D.Below size ev ev') {n : Nat} (le : n ≤ size) :
    D.Evaluates n (fun e => ev (.expr e)) (fun e => ev' (.expr e)) :=
  fun _ small => below.alike (Nat.lt_of_lt_of_le small le)

theorem operands (below : D.Below size ev ev') {es : List Expr} (small : sizeOf es ≤ size)
    (marked : D.MarksAll (Expr.placesOfAll es)) :
    List.Forall₂ D.Alike (es.map ev.operand) (es.map ev'.operand) := by
  rw [List.forall₂_map_left_iff, List.forall₂_map_right_iff, List.forall₂_same]
  intro e member
  exact below.alike (Nat.lt_of_lt_of_le (List.sizeOf_lt_of_mem member) small)
    (marked.mono (Expr.places_subset (List.Subset.refl _) member))

theorem inOrder (below : D.Below size ev ev') {ss : List Stmt} (small : sizeOf ss ≤ size)
    (marked : D.MarksAll (Stmt.placesOfAll ss)) :
    Lockstep.Runs D (Effect.inOrder (ev.each ss)) (Effect.inOrder (ev'.each ss)) := by
  apply Lockstep.inOrder
  unfold Evaluator.each
  rw [List.forall₂_map_left_iff, List.forall₂_map_right_iff, List.forall₂_same]
  intro st member
  exact below.stmt st (Nat.lt_of_lt_of_le (List.sizeOf_lt_of_mem member) small)
    (marked.mono (Stmt.places_subset (List.Subset.refl _) member))

theorem option (below : D.Below size ev ev') {o : Option Stmt} (small : sizeOf o ≤ size)
    (marked : D.MarksAll (Stmt.placesOfOption o)) :
    Lockstep.Runs D (ev.option o) (ev'.option o) := by
  cases o with
  | none => exact fun s t h => .pure h trivial
  | some st =>
      have smaller : sizeOf st < size := by
        simp only [Option.some.sizeOf_spec] at small
        omega
      exact below.stmt st smaller marked

/-- The operand that may stand in a declaration or a return. -/
theorem optional (below : D.Below size ev ev') {o : Option Expr} (small : sizeOf o ≤ size)
    (marked : D.MarksAll (Expr.placesOfAll o.toList)) (e : Expr) (given : o = some e) :
    D.Alike (ev.operand e) (ev'.operand e) := by
  subst given
  simp only [Option.some.sizeOf_spec] at small
  exact below.alike (by omega) (marked.mono (Expr.places_subset (List.Subset.refl _) (by simp)))

theorem exprLayer {e : Expr} (below : D.Below (sizeOf e) ev ev') (marked : D.MarksAll e.places)
    (h : D.Beside s t) : D.Meets s t (.expr e) (ev.exprLayer e) (ev'.exprLayer e) := by
  have mark := marked _ e.pos_mem_places
  cases e with
  | int pos n =>
      apply Lockstep.located mark
      apply Lockstep.ofExcept h rfl
      intro v ok
      have int := Value.isInt_ofConstant ok
      exact ⟨D.owns_scalar int.isScalar, fun _ => rfl, fun _ _ => int⟩
  | float pos x => exact .pure h (.typed (D.owns_scalar (Value.isScalar_float _)) fun _ => rfl)
  | bool pos b => exact .pure h (.typed (D.owns_scalar (Value.isScalar_bool _)) fun _ => rfl)
  | str pos text => exact .located mark (.fail h _)
  | name pos x => exact .located mark (.readName h pos x)
  | unary pos op e =>
      simp only [Expr.unary.sizeOf_spec] at below
      simp only [Expr.places, marksAll_cons] at marked
      exact .located mark (.unary h (below.alike (by omega) marked.2) pos op)
  | binary pos op l r =>
      simp only [Expr.binary.sizeOf_spec] at below
      simp only [Expr.places, marksAll_cons, marksAll_append] at marked
      exact .located mark (.binary h (below.alike (by omega) marked.2.1)
        (below.alike (by omega) marked.2.2) pos op)
  | convert pos ty e =>
      simp only [Expr.convert.sizeOf_spec] at below
      simp only [Expr.places, marksAll_cons] at marked
      exact .located mark (.convert h (below.alike (by omega) marked.2) pos ty)
  | index pos a i =>
      simp only [Expr.index.sizeOf_spec] at below
      simp only [Expr.places, marksAll_cons, marksAll_append] at marked
      exact .located mark (.element h (below.alike (by omega) marked.2.1)
        (below.alike (by omega) marked.2.2) pos)
  | call pos callee args =>
      simp only [Expr.call.sizeOf_spec] at below
      simp only [Expr.places, marksAll_cons] at marked
      apply Lockstep.located mark
      apply Lockstep.invoke h (below.operands (by omega) marked.2)
      intro f vs s t h callable suits
      exact below.call (by omega) f vs pos s t h ⟨callable, suits⟩
  | print pos package style args =>
      simp only [Expr.print.sizeOf_spec] at below
      simp only [Expr.places, marksAll_cons] at marked
      exact .located mark (.printing h (below.operands (by omega) marked.2) pos package style args)

/-- A statement that does something and goes on. -/
theorem thenNext {x y : Effect Unit} {pos : Pos} (mark : D.marks pos)
    (run : D.Lockstep .stmt x y s t fun _ _ => True) :
    D.Lockstep .stmt (located pos do x; return Ending.next) (located pos do y; return Ending.next)
      s t fun r u => D.ends u.heap s.result? r := by
  apply Lockstep.located mark
  apply run.bind
  intro _ s' t' moved _
  exact .pure moved.beside trivial

theorem stmtLayer {st : Stmt} (below : D.Below (sizeOf st) ev ev') (marked : D.MarksAll st.places)
    (h : D.Beside s t) : D.Meets s t (.stmt st) (ev.stmtLayer st) (ev'.stmtLayer st) := by
  have mark := marked _ st.pos_mem_places
  cases st with
  | var pos x ty init =>
      simp only [Stmt.var.sizeOf_spec] at below
      simp only [Stmt.places, marksAll_cons] at marked
      exact thenNext mark (.declareVar h x ty init (below.optional (by omega) marked.2))
  | const pos x ty e =>
      simp only [Stmt.const.sizeOf_spec] at below
      simp only [Stmt.places, marksAll_cons] at marked
      exact thenNext mark (.declareConst h x ty e (below.alike (by omega) marked.2))
  | assign pos target op e =>
      simp only [Stmt.assign.sizeOf_spec] at below
      simp only [Stmt.places, marksAll_cons, marksAll_append] at marked
      have assigned := Lockstep.assign h target op e marked.2.1 (below.evaluates (by omega))
        (below.alike (by omega) marked.2.2)
      exact thenNext mark assigned.lift
  | bump pos target up =>
      simp only [Stmt.bump.sizeOf_spec] at below
      simp only [Stmt.places, marksAll_cons] at marked
      have bumped := Lockstep.bump h target up marked.2 (below.evaluates (by omega))
      exact thenNext mark bumped.lift
  | if_ pos init cond body orelse =>
      simp only [Stmt.if_.sizeOf_spec] at below
      simp only [Stmt.places, marksAll_cons, marksAll_append] at marked
      obtain ⟨_, ⟨⟨first, test⟩, thens⟩, elses⟩ := marked
      apply Lockstep.located mark
      exact Lockstep.conditional (below.option (by omega) first) (below.alike (by omega) test)
        (below.inOrder (by omega) thens) (below.option (by omega) elses) s t h
  | return_ pos e =>
      simp only [Stmt.return_.sizeOf_spec] at below
      simp only [Stmt.places, marksAll_cons] at marked
      have finished := Lockstep.finish h e (below.optional (by omega) marked.2)
      exact .located mark finished.lift
  | block pos body =>
      simp only [Stmt.block.sizeOf_spec] at below
      simp only [Stmt.places, marksAll_cons] at marked
      apply Lockstep.located mark
      exact Lockstep.Runs.inBlock (below.inOrder (by omega) marked.2) s t h
  | expr pos e =>
      simp only [Stmt.expr.sizeOf_spec] at below
      simp only [Stmt.places, marksAll_cons] at marked
      have evaluated := below.expr e (by omega) marked.2 s t h
      exact thenNext mark (Lockstep.discard evaluated fun _ _ _ => trivial).lift

/-- A call of the first run beside a second one that has room for it or has
    stopped. -/
theorem callRoom {D' : Discipline} {f : Func} {args : List Value} {site : Pos}
    (below : s.room ≠ 0 → D'.Below (sizeOf f.body) ev ev')
    (opens : D.Opens D' ⟨f.name, site, f.result⟩) (h : D.Beside s t)
    (ready : D.Ready (.call f args site) s)
    (same : ∀ u, t = .running u → (s.room = 0 ↔ u.room = 0) ∧ (s.room = 0 → s.limit = u.limit)) :
    D.Meets s t (.call f args site) (ev.callLayer f args site) (ev'.callLayer f args site) := by
  by_cases room : s.room = 0
  · apply Lockstep.congr _ _ (Lockstep.fail h (.stackOverflow s.limit))
    · rw [Evaluator.callLayer_apply, if_pos room]
    · intro u running
      have there := same u running
      rw [Evaluator.callLayer_apply, if_pos (there.1.mp room), there.2 room]
  · have marked : D'.MarksAll (Stmt.placesOfAll f.body) := fun pos member =>
      opens.marks.mp (D.callable_marked ready.1 pos (List.mem_cons_of_mem _ member))
    have there : ∀ u, t = .running u → u.room ≠ 0 := fun u running empty =>
      room ((same u running).1.mpr empty)
    have entered := Lockstep.enter opens h room there ready.1 ready.2
      ((below room).inOrder (Nat.le_refl _) marked)
    apply Lockstep.congr _ _ entered
    · rw [Evaluator.callLayer_apply, if_neg room]
    · intro u running
      rw [Evaluator.callLayer_apply, if_neg (there u running)]

theorem callLayer {D' : Discipline} {f : Func} {args : List Value} {site : Pos}
    (below : s.room ≠ 0 → D'.Below (sizeOf f.body) ev ev')
    (opens : D.Opens D' ⟨f.name, site, f.result⟩) (h : D.Beside s t)
    (ready : D.Ready (.call f args site) s) :
    D.Meets s t (.call f args site) (ev.callLayer f args site) (ev'.callLayer f args site) := by
  cases t with
  | stopped e sink => exact callRoom below opens h ready nofun
  | running t =>
      rcases opens.room h with ⟨room, limit⟩ | ⟨less, past⟩
      · apply callRoom below opens h ready
        rintro _ ⟨⟩
        exact ⟨by rw [room], fun _ => limit⟩
      · by_cases room : t.room = 0
        · -- The second run has no room for the call that the first one makes.
          have refused : ev'.callLayer f args site t = .error ⟨.stackOverflow t.limit, none⟩ t := by
            rw [Evaluator.callLayer_apply, if_pos room]
            rfl
          apply Lockstep.stopping refused
          exact callRoom below opens ⟨D.alone past h, past⟩ ready nofun
        · apply callRoom below opens h ready
          rintro _ ⟨⟩
          have some : s.room ≠ 0 := by omega
          exact ⟨iff_of_false some room, fun none => absurd none some⟩

theorem loadLayer {p : Program} (below : D.Below (sizeOf p) ev ev') (loads : D.Loads)
    (h : D.Beside s t) (ready : D.Ready (.load p) s) :
    D.Meets s t (.load p) (ev.layer (.load p)) (ev'.layer (.load p)) := by
  apply Lockstep.loadBy loads ready.1 ready.2 _ h
  intro st member
  exact below.stmt st (Program.sizeOf_lt_of_mem_globals member)
    (ready.2.mono (Program.global_places_subset member))

theorem runLayer {p : Program} (below : D.Below (sizeOf p + 1) ev ev')
    (load : D.Meets s t (.load p) (ev (.load p)) (ev' (.load p))) :
    D.Meets s t (.run p) (ev.runLayer p) (ev'.runLayer p) := by
  apply load.bind
  intro _ s' t' moved _
  apply Lockstep.mainBy moved.beside
  intro f s t h callable
  exact below.call (by omega) f [] ⟨0, 0⟩ s t h ⟨callable, by simp [Suits]⟩

/-- One level of evaluation is in lockstep if everything that it asks for is:
    smaller syntax at the same depth of calls, or the body of a call one deeper. -/
theorem layer (below : D.Below p.size ev ev') (loads : D.Loads)
    (body : ∀ f args site, p = .call f args site →
      ∃ D', D.Opens D' ⟨f.name, site, f.result⟩ ∧
        (s.room ≠ 0 → D'.Below (sizeOf f.body) ev ev'))
    (load : ∀ program, p = .run program →
      D.Meets s t (.load program) (ev (.load program)) (ev' (.load program)))
    (h : D.Beside s t) (ready : D.Ready p s) : D.Meets s t p (ev.layer p) (ev'.layer p) := by
  cases p with
  | expr e => exact below.exprLayer ready h
  | stmt st => exact below.stmtLayer ready h
  | call f args site =>
      obtain ⟨D', opens, inside⟩ := body f args site rfl
      exact callLayer inside opens h ready
  | load p => exact below.loadLayer loads h ready
  | run p => exact below.runLayer (load p rfl)

end Below

/-- Two evaluators that make calls in lockstep are in lockstep on all syntax. -/
theorem below_calling {call call' : Caller}
    (calls : ∀ f args site s t, D.Beside s t → D.Ready (.call f args site) s →
      D.Meets s t (.call f args site) (call f args site) (call' f args site)) (size : Nat) :
    D.Below size (.calling call) (.calling call') := by
  induction size using Nat.strongRecOn with
  | ind size ih =>
      refine ⟨?_, ?_, fun _ => calls⟩
      · intro e small marked s t h
        have layered := (ih (sizeOf e) small).exprLayer marked h
        rwa [← eval_eq_exprLayer, ← eval_eq_exprLayer] at layered
      · intro st small marked s t h
        have layered := (ih (sizeOf st) small).stmtLayer marked h
        rwa [← exec_eq_stmtLayer, ← exec_eq_stmtLayer] at layered

end Discipline

end Treewalk
