import Treewalk.Proofs.Cutoff
import Treewalk.Report.Outcome

/-! # Output is only ever added to

No evaluation looks at what was printed before it, and it looks at its sink only to
hand it a print. A sink that collects text needs the text of the print, and there is
none if a directive asks for too much; then the run stops. Up to that point two runs
whose sinks differ take the same steps and hand over the same prints, and each sink has
in the end what it had before and these prints.
-/

namespace Treewalk

open Effect

/-! ## Sinks and prints -/

/-- The text of a print. -/
def Emit.text (e : Emit) : String := Template.render e.template e.args

/-- What a print hands over, with its arguments as they are then. -/
def PrintStyle.emits (style : PrintStyle) (args : List Template.Arg) : List Emit :=
  match style, args with
  | .println, args => [⟨Template.forLine args.length, args⟩]
  | .print, args => [⟨Template.forPrint args, args⟩]
  | .printf, .text template :: rest => [⟨template, rest⟩]
  | .printf, _ => []

namespace Template

/-- A directive that asks for more than any text has. -/
def Directive.Excessive (d : Directive) : Prop :=
  mostSpaces < d.width.getD 0 ∨ mostPlaces < d.precision.getD 6

theorem Directive.excessive_of_excess? {d : Directive} {verb : Char} {a : Arg} {x : Excess}
    (found : d.excess? verb a = some x) : d.Excessive := by
  unfold excess? at found
  dsimp only at found
  split at found
  · rename_i precise
    simp only [Bool.and_eq_true, decide_eq_true_eq] at precise
    exact .inr precise.1
  · split at found
    · exact .inl (by omega)
    · cases found

/-- Only a directive that asks for too much leaves a template without a text. -/
theorem exists_excessive {segments : List Segment} {args : List Arg} {x : Excess}
    (found : excess? segments args = some x) :
    ∃ d verb, Segment.verb d verb ∈ segments ∧ d.Excessive := by
  fun_induction excess? segments args with
  | case1 => cases found
  | case2 d verb ss a as ih =>
      cases here : d.excess? verb a with
      | some y => exact ⟨d, verb, List.mem_cons_self, Directive.excessive_of_excess? here⟩
      | none =>
          rw [here, Option.none_or] at found
          obtain ⟨d', verb', listed, excessive⟩ := ih found
          exact ⟨d', verb', List.mem_cons_of_mem _ listed, excessive⟩
  | case3 segment ss as _ ih =>
      obtain ⟨d, verb, listed, excessive⟩ := ih found
      exact ⟨d, verb, List.mem_cons_of_mem _ listed, excessive⟩

end Template

namespace Sink

/-- A print that the sink can take. -/
def Takes (sink : Sink) (e : Emit) : Prop := ∃ after, sink.emit e = .ok after

/-- A sink that has taken some more prints. -/
def extended (emits : List Emit) : Sink → Sink
  | .silent => .silent
  | .buffer text => .buffer (text ++ String.join (emits.map Emit.text))
  | .trace before => .trace (before ++ emits.toArray)

@[simp] theorem extended_nil (sink : Sink) : sink.extended [] = sink := by
  cases sink <;> simp [extended]

/-- What a sink has taken makes no difference to what it can take. -/
theorem emit_extended (sink : Sink) (emits : List Emit) (e : Emit) :
    (sink.extended emits).emit e = (sink.emit e).map fun _ => sink.extended (emits ++ [e]) := by
  cases sink with
  | silent => rfl
  | trace before => simp [extended, emit, Except.map]
  | buffer text =>
      cases excess : Template.excess? (Template.segments e.template.toList) e.args <;>
        simp [extended, emit, Template.printed, excess, Except.map, Emit.text, String.append_assoc]

theorem emit_of_takes {sink : Sink} {e : Emit} (takes : sink.Takes e) :
    sink.emit e = .ok (sink.extended [e]) := by
  obtain ⟨after, ok⟩ := takes
  have taken := sink.emit_extended [] e
  rw [extended_nil, ok] at taken
  exact ok.trans taken

theorem takes_or_error (sink : Sink) (e : Emit) :
    sink.Takes e ∨ ∃ fault, sink.emit e = .error fault := by
  cases taken : sink.emit e with
  | ok after => exact .inl ⟨after, taken⟩
  | error fault => exact .inr ⟨fault, rfl⟩

/-- Only a sink that collects text refuses prints, and only those without a text. -/
theorem emit_eq_error {sink : Sink} {e : Emit} {fault : Fault}
    (refused : sink.emit e = .error fault) :
    (∃ text, sink = .buffer text) ∧ (∃ excess, fault = .unprintable excess) ∧
      ∃ d verb, Template.Segment.verb d verb ∈ Template.segments e.template.toList ∧
        d.Excessive := by
  cases sink with
  | silent | trace => cases refused
  | buffer text =>
      cases excess : Template.excess? (Template.segments e.template.toList) e.args with
      | none =>
          simp only [emit, Template.printed, excess] at refused
          cases refused
      | some x =>
          simp only [emit, Template.printed, excess] at refused
          cases refused
          exact ⟨⟨text, rfl⟩, ⟨x, rfl⟩, Template.exists_excessive excess⟩

end Sink

/-- The same state with its prints going elsewhere. -/
def State.withSink (s : State) (sink : Sink) : State := { s with sink }

/-! ## One run beside another -/

/-- A run that lists its prints beside one with another sink. -/
def Cutoff.listed (sink : Sink) : Cutoff where
  beside limit a limit' b := limit = limit' ∧ ∃ emits : List Emit,
    (∀ e ∈ emits, sink.Takes e) ∧ a = sink.extended emits ∧ b = .trace emits.toArray
  past err a b := ∃ (before : List Emit) (e : Emit) (later : List Emit),
    (∀ e ∈ before, sink.Takes e) ∧ sink.emit e = .error err.fault ∧ a = sink.extended before ∧
      b = .trace (before ++ e :: later).toArray
  past_within _ past := past
  past_emit := by
    rintro err a _ b' e' ⟨before, e, later, takes, refused, rfl, rfl⟩ ok
    cases ok
    exact ⟨before, e, later ++ [e'], takes, refused, rfl, by simp⟩
  takes := by
    rintro _ _ limit _ e ⟨rfl, emits, takes, rfl, rfl⟩
    rw [sink.emit_extended]
    rcases sink.takes_or_error e with ⟨after, ok⟩ | ⟨fault, refused⟩
    · rw [ok]
      refine .ok ⟨rfl, emits ++ [e], ?_, rfl, by simp⟩
      intro e' member
      rcases List.mem_append.mp member with old | new
      · exact takes e' old
      · exact List.mem_singleton.mp new ▸ ⟨after, ok⟩
    · rw [refused]
      exact .passed ⟨emits, e, [], takes, refused, rfl, by simp⟩
  room h := .inl h.1
  meet := by
    rintro _ _ _ _ _ _ _ _ ⟨_, e, _, _, refused, _⟩ ⟨_, emits, _, rfl, rfl⟩ _ begins begins'
    -- A sink that refuses a print collects text, and so it cannot become a list.
    obtain ⟨⟨text, rfl⟩, _⟩ := Sink.emit_eq_error refused
    cases begins
    cases begins'

/-- What comes of a point with some sink, beside what comes of it with a sink that
    lists its prints: all prints are taken, and both come to the same, or the run
    stops at the first print that is not taken. -/
inductive SinkComparison (p : Point) (s : State) (sink : Sink) (emits : List Emit) : Prop where
  | same : (∀ e ∈ emits, sink.Takes e) →
      (evaluate p).outcome (s.withSink sink) = (evaluate p).outcome (s.withSink (.trace #[])) →
      (evaluate p).after (s.withSink sink) =
        ((evaluate p).after (s.withSink (.trace #[]))).withSink (sink.extended emits) →
      SinkComparison p s sink emits
  | stopped {before later : List Emit} {e : Emit} {err : RunError} : emits = before ++ e :: later →
      (∀ e ∈ before, sink.Takes e) → sink.emit e = .error err.fault →
      (evaluate p).outcome (s.withSink sink) = .error err →
      ((evaluate p).after (s.withSink sink)).sink = sink.extended before →
      SinkComparison p s sink emits

theorem compares_listed (p : Point) (s : State) (sink : Sink) : ∃ emits : List Emit,
    ((evaluate p).after (s.withSink (.trace #[]))).sink = .trace emits.toArray ∧
      SinkComparison p s sink emits := by
  have start : (Cutoff.listed sink).Runs (s.withSink (.trace #[])) (s.withSink sink) :=
    ⟨s.limit, sink, rfl, rfl, [], by simp, by simp, rfl⟩
  rcases start.agrees_or_stops p with
    ⟨same, limit, _, left, rfl, emits, takes, rfl, listed⟩ | stopped
  · exact ⟨emits, listed, .same takes same.symm left⟩
  · obtain ⟨err, failed, before, e, later, takes, refused, left, listed⟩ := stopped
    exact ⟨before ++ e :: later, listed, .stopped rfl takes refused failed left⟩

/-- The prints of an evaluation are the same for every sink. -/
theorem exists_emits (p : Point) (s : State) :
    ∃ emits : List Emit, ∀ sink, SinkComparison p s sink emits := by
  obtain ⟨emits, listed, _⟩ := compares_listed p s .silent
  refine ⟨emits, fun sink => ?_⟩
  obtain ⟨emits', listed', compares⟩ := compares_listed p s sink
  rw [listed] at listed'
  obtain rfl : emits = emits' := by simpa using listed'
  exact compares

/-! ## Prints -/

/-- Hand prints to the sink of a state, up to the first one that it cannot take. -/
theorem after_emit {e : Emit} {s : State} (takes : s.sink.Takes e) :
    (emit e.template e.args).after s = s.withSink (s.sink.extended [e]) := by
  unfold Effect.emit
  rw [Effect.after, get_bind, Sink.emit_of_takes takes]
  rfl

theorem after_print (package : String) (style : PrintStyle) (vs : List (String ⊕ Value))
    (s : State) (takes : ∀ e ∈ style.emits (vs.map (readArg s)), s.sink.Takes e) :
    (print package style vs).after s =
      s.withSink (s.sink.extended (style.emits (vs.map (readArg s)))) := by
  unfold Effect.print
  rw [Effect.after, get_bind]
  generalize vs.map (readArg s) = args at *
  cases style with
  | println =>
      exact after_emit (e := ⟨Template.forLine args.length, args⟩) (takes _ List.mem_cons_self)
  | print => exact after_emit (e := ⟨Template.forPrint args, args⟩) (takes _ List.mem_cons_self)
  | printf =>
      cases args with
      | nil =>
          simp only [PrintStyle.emits, Sink.extended_nil]
          rfl
      | cons arg rest =>
          cases arg with
          | text template => exact after_emit (e := ⟨template, rest⟩) (takes _ List.mem_cons_self)
          | datum d =>
              simp only [PrintStyle.emits, Sink.extended_nil]
              rfl

/-- A print hands over its arguments as they are once all of them are evaluated. -/
theorem after_printing {package : String} {style : PrintStyle} {args : List Operand}
    {vs : List (String ⊕ Value)} {s t : State} (imported : package ∈ s.imports)
    (evaluated : printArgs args s = .ok vs t)
    (takes : ∀ e ∈ style.emits (vs.map (readArg t)), t.sink.Takes e) :
    (printing package style args).after s =
      t.withSink (t.sink.extended (style.emits (vs.map (readArg t)))) := by
  have known : s.imports.contains package = true := by simpa using imported
  unfold Effect.printing
  rw [Effect.after, get_bind, if_pos known, bind_ok evaluated, ← Effect.after, after_bind_pure,
    after_print _ _ _ _ takes]

/-! ## Source files -/

namespace Outcome

/-- What is reported of a program that has run. -/
def ofResult (source : String) : EStateM.Result RunError State Unit → Outcome
  | .ok _ s => ⟨0, s.sink.text, []⟩
  | .error e s => ⟨e.fault.code, s.sink.text, runtimeReport source e⟩

theorem ofResult_eq (source : String) {x : Effect Unit} {s t : State}
    (same : x.outcome s = x.outcome t) :
    ofResult source (x s) = { ofResult source (x t) with output := (x.after s).sink.text } := by
  unfold Effect.outcome at same
  unfold Effect.after
  cases here : x s <;> cases there : x t <;> simp_all [ofResult]

theorem code_ofResult_of_error (source : String) {x : Effect Unit} {s : State} {e : RunError}
    (failed : x.outcome s = .error e) : (ofResult source (x s)).code = e.fault.code := by
  unfold Effect.outcome at failed
  cases here : x s <;> simp_all [ofResult]

/-- Without its output a run comes to the same, unless it ends in a print that has no
    text. -/
theorem ofProgram_quiet (settings : Settings) (source : String) (p : Program) :
    (ofProgram { settings with quiet := false } source p).code = 101 ∨
    ofProgram { settings with quiet := true } source p =
      { ofProgram { settings with quiet := false } source p with output := "" } := by
  obtain ⟨emits, compares⟩ := exists_emits (.run p) (.fresh settings.callLimit .silent)
  have quiet := compares .silent
  cases compares (.buffer "") with
  | stopped _ _ refused failed _ =>
      obtain ⟨_, ⟨excess, crash⟩, _⟩ := Sink.emit_eq_error refused
      refine .inl ((code_ofResult_of_error source failed).trans ?_)
      rw [crash]
      rfl
  | same _ outcome _ =>
      cases quiet with
      | stopped _ _ refused => cases refused
      | same _ outcome' after' =>
          have reported := ofResult_eq source (outcome'.trans outcome.symm)
          rw [after'] at reported
          exact .inr reported

theorem ofSource_quiet (settings : Settings) (file : String) (source : Source) :
    (ofSource { settings with quiet := false } file source).code = 101 ∨
    ofSource { settings with quiet := true } file source =
      { ofSource { settings with quiet := false } file source with output := "" } := by
  cases source with
  | missing | unreadable => exact .inr rfl
  | text source =>
      have quiet := ofProgram_quiet settings source
      cases parsed : Program.ofSource source with
      | error lines => exact .inr (by simp only [ofSource, parsed])
      | ok p => simpa only [ofSource, parsed] using quiet p

end Outcome

/-- Arguments of a print: an array, and a call of a function that writes to it. -/
def fillingArgs : List Expr := [.name ⟨8, 5⟩ "a", .call ⟨8, 8⟩ "fill" []]

/-- Print an array, and print it once more together with the call. -/
def printWhileFilling : Program :=
  ⟨"main", ["fmt"],
    [.stmt (.var ⟨1, 1⟩ "a" (some (.array 1 .int)) none),
      .func ⟨⟨2, 1⟩, "fill", [], some .int,
        [.assign ⟨3, 1⟩ (.index ⟨3, 1⟩ (.name ⟨3, 1⟩ "a") (.int ⟨3, 3⟩ 0)) none (.int ⟨3, 8⟩ 7),
          .return_ ⟨4, 1⟩ (some (.int ⟨4, 8⟩ 1))]⟩,
      .func ⟨⟨6, 1⟩, "main", [], none,
        [.expr ⟨7, 1⟩ (.print ⟨7, 1⟩ "fmt" .print [.name ⟨7, 5⟩ "a"]),
          .expr ⟨8, 1⟩ (.print ⟨8, 1⟩ "fmt" .print fillingArgs)]⟩]⟩

def firstPrint : Emit := ⟨"%v", [.datum (.array .int [.int 0])]⟩

def secondPrint : Emit := ⟨"%v %v", [.datum (.array .int [.int 7]), .datum (.int 1)]⟩

/-- The state before `main` is called. -/
def unfilled : State := printWhileFilling.load.after (.fresh 4 (.trace #[]))

theorem takes_prints (text : String) :
    ∀ e ∈ [firstPrint, secondPrint], (Sink.buffer text).Takes e := by
  have first : Template.excess? (Template.segments firstPrint.template.toList) firstPrint.args =
      none := by decide +kernel
  have second : Template.excess? (Template.segments secondPrint.template.toList) secondPrint.args =
      none := by decide +kernel
  simp [Sink.Takes, Sink.emit, Template.printed, first, second]

/-- A source text that prints a number with a width beyond all texts. -/
def widePrint : String :=
  "\n".intercalate
    ["package main", "import \"fmt\"", r"func main() {",
      "\tfmt.Printf(\"%18446744073709551615d\", 1)", r"}", ""]

end Treewalk
